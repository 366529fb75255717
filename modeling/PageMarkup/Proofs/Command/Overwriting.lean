import PageMarkup.Proofs.Command.Contract
import PageMarkup.Proofs.Written.Rejecting

namespace PageMarkup

theorem standalonePage_begins (title fragment : String) :
    ['<', '!'] <+: (standalonePage title fragment).toList := by
  unfold standalonePage
  rw [String.append_assoc, String.append_assoc, String.append_assoc, String.append_assoc,
    String.toList_append]
  refine List.IsPrefix.trans ?_ (List.prefix_append _ _)
  decide

namespace Command

variable {tree : FileTree} {path target page : String} {maxDepth : Nat}

/-- A page is no document, for it begins with a tag that has no name. -/
theorem standalonePage_noHtml (maxDepth : Nat) (title fragment : String) :
    (compileText maxDepth (standalonePage title fragment)).html = none := by
  obtain ⟨rest, begins⟩ := standalonePage_begins title fragment
  have unnamed : Written.Broken maxDepth maxDepth (0 + byteLength (Written.texts []))
      ('<' :: ([] ++ '!' :: rest)) _ := .unnamed ⟨[], by simp⟩ rfl rfl
  have broken : ∃ failure, Written.BrokenDocument maxDepth 0
      (Source.ofString (standalonePage title fragment)).text failure := by
    rw [Source.ofString, Source.text_ofText, ← begins]
    exact ⟨_, .intro [] (by simp) (by simp) (Nat.zero_le _) True.intro unnamed⟩
  obtain ⟨failure, broken⟩ := broken
  have rejected := Written.parseDocument_fails broken
  simp only [compileText, Compiler.compile, rejected]

/-- The page of a source goes where the source is: this has the extension of pages, and a text with
    HTML. -/
structure Overwrites (tree : FileTree) (path : String) (maxDepth : Nat) (page : String) : Prop where
  named : Path.HasExtension path "html"
  page_eq : ∃ text html, tree.reading path = .content text ∧
    (compileText maxDepth text).html = some html ∧ page = standalonePage (title path) html

theorem Overwrites.due (overwrites : Overwrites tree path maxDepth page) :
    Due tree path none maxDepth path page := by
  obtain ⟨named, text, html, read, compiled, rfl⟩ := overwrites
  have given : ∃ target, outputPath path none = .ok target ∧
      Due tree path none maxDepth target (standalonePage (title path) html) :=
    exists_due read compiled
  obtain ⟨target, given, due⟩ := given
  have derived := Path.withExtension?_eq_self (by decide) named
  rcases outputPath_eq_ok.mp given with given | ⟨_, derived'⟩
  · cases given
  · rw [derived] at derived'
    cases derived'
    exact due

theorem overwrites_of_due (due : Due tree path none maxDepth target page)
    (same : tree.locate path = tree.locate target) : Overwrites tree path maxDepth page := by
  obtain ⟨⟨text, html, stem, read, compiled, named, rfl⟩, given⟩ := due
  obtain ⟨place, located, file⟩ := FileTree.exists_file_of_reading read
  obtain ⟨parent, name, directory, child, splits, _⟩ := FileTree.exists_child_of_file located file
  rw [same] at located
  obtain ⟨parent', name', directory', child', splits', _⟩ :=
    FileTree.exists_child_of_file located file
  rw [child'] at child
  have names : name' = name := by
    have last := congrArg (fun place : Place => place.names.getLast?) child
    simpa [Place.child] using last
  rw [names] at splits'
  rcases given with given | ⟨_, derived⟩
  · cases given
  · refine ⟨Path.hasExtension_of_withExtension? (by decide) derived splits splits', text, html, read,
      compiled, ?_⟩
    rw [title, named, Option.getD_some]

theorem Overwrites.exists_write (overwrites : Overwrites tree path maxDepth page) :
    ∃ after, tree.write path page = .ok after := by
  obtain ⟨_, text, _, read, _⟩ := overwrites
  obtain ⟨place, located, file⟩ := FileTree.exists_file_of_reading read
  have opened := FileTree.locateForWriting_iff.mpr ⟨located, file⟩
  exact ⟨_, FileTree.bind_eq_ok.mpr ⟨place, opened, rfl⟩⟩

/-- A build without a given output leaves its source as it was, unless its page goes there. Then the
    source is lost. -/
theorem build_keeps_or_overwrites (tree : FileTree) (threshold : Log.Threshold) (path : String)
    (maxDepth : Nat) :
    let after := (performIn tree threshold (.build path none maxDepth)).2
    (¬ ∃ page, Overwrites tree path maxDepth page) ∧ after.find? path = tree.find? path ∨
      ∃ page, Overwrites tree path maxDepth page ∧ after.find? path = some (.text page) ∧
        after.find? path ≠ tree.find? path := by
  intro after
  have built : Built tree path none maxDepth _ after := perform_build tree threshold path none maxDepth
  by_cases overwritten : ∃ page, Overwrites tree path maxDepth page
  · refine .inr ?_
    obtain ⟨page, overwrites⟩ := overwritten
    obtain ⟨written, wrote⟩ := overwrites.exists_write
    obtain ⟨_, target, page', due, here⟩ := built.written (not_stops_of_write overwrites.due wrote)
    obtain ⟨rfl, rfl⟩ := due.unique overwrites.due
    refine ⟨page', overwrites, here, ?_⟩
    rw [here]
    intro same
    -- the source has HTML, which its page has not
    obtain ⟨_, text, html, read, compiled, rfl⟩ := overwrites
    rw [FileTree.reading_eq_content, ← same] at read
    cases read
    rw [standalonePage_noHtml] at compiled
    cases compiled
  · refine .inl ⟨overwritten, ?_⟩
    by_contra changed
    obtain ⟨target, page, due, same⟩ := built.paths path changed
    exact overwritten ⟨page, overwrites_of_due due same⟩

/-- A source that is named like a page does not outlast its build. -/
theorem exists_overwritten_source :
    let tree : FileTree := ⟨[(⟨false, 0, ["a.html"]⟩, .text "<text>x</text>")]⟩
    let after := (performIn tree Log.Level.warn.detail (.build "a.html" none 1)).2
    tree.find? "a.html" = some (.text "<text>x</text>") ∧
      after.find? "a.html" = some (.text (standalonePage "a" "<p>x</p>")) ∧
      after.find? "a.html" ≠ tree.find? "a.html" := by
  intro tree after
  have stored : tree.find? "a.html" = some (.text "<text>x</text>") := by decide +kernel
  have due : Due tree "a.html" none 1 "a.html" (standalonePage "a" "<p>x</p>") :=
    ⟨⟨"<text>x</text>", "<p>x</p>", "a", FileTree.reading_eq_content.mpr stored, by decide +kernel,
      by decide +kernel, rfl⟩, .inr ⟨rfl, by decide +kernel⟩⟩
  have wrote : tree.write "a.html" (standalonePage "a" "<p>x</p>") = .ok _ := rfl
  have built : Built tree "a.html" none 1 _ after := perform_build tree _ "a.html" none 1
  obtain ⟨_, target, page, due', here⟩ := built.written (not_stops_of_write due wrote)
  obtain ⟨rfl, rfl⟩ := due'.unique due
  refine ⟨stored, here, ?_⟩
  rw [here, stored]
  decide +kernel

end Command

end PageMarkup
