import PageMarkup.Command.Run
import PageMarkup.Proofs.Command.FileTree

namespace PageMarkup

variable {σ : Type}

structure FileAccess.Lawful (files : FileAccess (StateM σ)) : Prop where
  read (path : String) (state : σ) : ((files.read path).run state).2 = state
  write {path content reason : String} {state : σ}
    (failed : ((files.write path content).run state).1 = some reason) :
    ((files.write path content).run state).2 = state

namespace Command

def compileText (maxDepth : Nat) (text : String) : Compiled :=
  (Compiler.mk .builtin maxDepth).compile (.ofString text)

inductive BuildEnds (files : FileAccess (StateM σ)) (path : String) (out : Option String)
    (maxDepth : Nat) (state : σ) : (exit : Nat) → (after : σ) → Prop
  | unread (noText : ∀ text, ((files.read path).run state).1 ≠ .content text) :
      BuildEnds files path out maxDepth state 1 state
  | broken {text : String} (readable : ((files.read path).run state).1 = .content text)
      (noHtml : (compileText maxDepth text).html = none) :
      BuildEnds files path out maxDepth state 1 state
  | unnamed {text html : String} {error : Failed}
      (readable : ((files.read path).run state).1 = .content text)
      (compiled : (compileText maxDepth text).html = some html)
      (unnamed : outputPath path out = .error error) :
      BuildEnds files path out maxDepth state 1 state
  | unwritten {text html target reason : String}
      (readable : ((files.read path).run state).1 = .content text)
      (compiled : (compileText maxDepth text).html = some html)
      (named : outputPath path out = .ok target)
      (failed : ((files.write target (standalonePage (title path) html)).run state).1 =
        some reason) :
      BuildEnds files path out maxDepth state 1 state
  | written {text html target : String} {after : σ}
      (readable : ((files.read path).run state).1 = .content text)
      (compiled : (compileText maxDepth text).html = some html)
      (named : outputPath path out = .ok target)
      (wrote : (files.write target (standalonePage (title path) html)).run state = (none, after)) :
      BuildEnds files path out maxDepth state 0 after

variable {files : FileAccess (StateM σ)}

theorem run_read (lawful : files.Lawful) (path : String) (next : Reading → StateM σ Outcome)
    (state : σ) : (files.read path >>= next).run state =
      (next ((files.read path).run state).1).run state := by
  change (next ((files.read path).run state).1).run ((files.read path).run state).2 = _
  rw [lawful.read]

theorem build_ends (lawful : files.Lawful) (threshold : Log.Threshold) (path : String)
    (out : Option String) (maxDepth : Nat) (state : σ) :
    BuildEnds files path out maxDepth state
      ((build files threshold path out maxDepth).run state).1.exit
      ((build files threshold path out maxDepth).run state).2 := by
  rw [build, run_read lawful]
  cases read : ((files.read path).run state).1 with
  | missing => exact .unread (by rw [read]; exact nofun)
  | unreadable reason => exact .unread (by rw [read]; exact nofun)
  | content text =>
    simp only [Outcome.ofReadings]
    cases compiled : ((Compiler.mk .builtin maxDepth).compile (.ofString text)).html with
    | none => exact .broken read compiled
    | some html =>
      cases named : outputPath path out with
      | error error => exact .unnamed read compiled named
      | ok target =>
        simp only [StateT.run_bind]
        cases wrote : (files.write target (standalonePage (title path) html)).run state with
        | mk answer after =>
          cases answer with
          | none => exact .written read compiled named wrote
          | some reason =>
            have failed : ((files.write target (standalonePage (title path) html)).run state).1 =
                some reason := by rw [wrote]
            have kept := lawful.write failed
            rw [wrote] at kept
            cases kept
            exact .unwritten read compiled named failed

theorem check_ends (lawful : files.Lawful) (threshold : Log.Threshold) (path : String)
    (format : Format) (maxDepth : Nat) (state : σ) :
    ((check files threshold path format maxDepth).run state).2 = state ∧
      ((check files threshold path format maxDepth).run state).1.exit =
        match ((files.read path).run state).1 with
        | .content text => if (compileText maxDepth text).errors.isEmpty then 0 else 1
        | _ => 1 := by
  rw [check, run_read lawful]
  cases read : ((files.read path).run state).1 with
  | missing => exact ⟨rfl, rfl⟩
  | unreadable reason => exact ⟨rfl, rfl⟩
  | content text => cases format <;> exact ⟨rfl, rfl⟩

end Command

namespace FileTree

variable {tree : FileTree} {path : String}

theorem run_write (tree : FileTree) (path content : String) :
    (access.write path content).run tree =
      match tree.write path content with
      | .ok after => (none, after)
      | .error error => (some error.message, tree) := by
  simp only [access, StateT.run_bind, StateT.run_get, pure_bind]
  cases tree.write path content <;> rfl

theorem access_lawful : access.Lawful where
  read path state := rfl
  write {path content reason state} failed := by
    rw [run_write] at failed ⊢
    cases wrote : state.write path content with
    | error error => rfl
    | ok after =>
      rw [wrote] at failed
      cases failed

theorem reading_eq_content {text : String} :
    tree.reading path = .content text ↔ tree.find? path = some (.text text) := by
  unfold reading
  cases tree.find? path with
  | none => simp
  | some entry => cases entry <;> simp

theorem exists_file_of_reading {text : String} (read : tree.reading path = .content text) :
    ∃ place, tree.locate path = .ok place ∧ tree.entry? place ≠ some .directory := by
  obtain ⟨place, located, found⟩ := find?_eq_some.mp (reading_eq_content.mp read)
  refine ⟨place, located, ?_⟩
  rw [found]
  exact nofun

end FileTree

namespace Command

/-- What a build has to write, and where: the page of a document that has HTML, under the stem of
    its path. It goes to the given path, or to that of the document with the extension `html`. -/
structure Due (tree : FileTree) (path : String) (out : Option String) (maxDepth : Nat)
    (target page : String) : Prop where
  page_eq : ∃ text html stem, tree.reading path = .content text ∧
    (compileText maxDepth text).html = some html ∧ Path.stem? path = some stem ∧
    page = standalonePage stem html
  target_eq : out = some target ∨ out = none ∧ Path.withExtension? path "html" = some target

inductive Stops (tree : FileTree) (path : String) (out : Option String) (maxDepth : Nat) : Prop
  | missing (read : tree.reading path = .missing)
  | unreadable {reason : String} (read : tree.reading path = .unreadable reason)
  | syntaxError {text : String} (read : tree.reading path = .content text)
      (noHtml : (compileText maxDepth text).html = none)
  | unwritable {target page : String} {error : OpenError}
      (due : Due tree path out maxDepth target page)
      (failed : tree.write target page = .error error)

variable {tree after : FileTree} {path target page target' page' : String} {out : Option String}
  {maxDepth exit : Nat}

theorem Due.unique (due : Due tree path out maxDepth target page)
    (due' : Due tree path out maxDepth target' page') : target = target' ∧ page = page' := by
  obtain ⟨⟨text, html, stem, read, compiled, named, rfl⟩, given⟩ := due
  obtain ⟨⟨text', html', stem', read', compiled', named', rfl⟩, given'⟩ := due'
  rw [read] at read'
  cases read'
  rw [compiled] at compiled'
  cases compiled'
  rw [named] at named'
  cases named'
  refine ⟨?_, rfl⟩
  rcases given with rfl | ⟨rfl, derived⟩ <;> rcases given' with same | ⟨same, derived'⟩
  · exact Option.some.inj same
  · cases same
  · cases same
  · exact Option.some.inj (derived.symm.trans derived')

theorem outputPath_eq_ok : outputPath path out = .ok target ↔
    out = some target ∨ out = none ∧ Path.withExtension? path "html" = some target := by
  unfold outputPath
  cases out <;> cases Path.withExtension? path "html" <;> simp

theorem exists_due {text html : String} (read : tree.reading path = .content text)
    (compiled : (compileText maxDepth text).html = some html) :
    ∃ target, outputPath path out = .ok target ∧
      Due tree path out maxDepth target (standalonePage (title path) html) := by
  obtain ⟨place, located, file⟩ := FileTree.exists_file_of_reading read
  obtain ⟨⟨stem, named⟩, derived, extended⟩ := FileTree.exists_stem_of_file located file "html"
  have titled : title path = stem := by rw [title, named, Option.getD_some]
  have given : ∃ target, out = some target ∨
      out = none ∧ Path.withExtension? path "html" = some target := by
    cases out with
    | none => exact ⟨derived, .inr ⟨rfl, extended⟩⟩
    | some target => exact ⟨target, .inl rfl⟩
  obtain ⟨target, given⟩ := given
  refine ⟨target, outputPath_eq_ok.mpr given, ⟨text, html, stem, read, compiled, named, ?_⟩, given⟩
  rw [titled]

theorem build_cases (ends : BuildEnds FileTree.access path out maxDepth tree exit after) :
    Stops tree path out maxDepth ∧ exit = 1 ∧ after = tree ∨
      exit = 0 ∧ ∃ target page, Due tree path out maxDepth target page ∧
        tree.write target page = .ok after := by
  have due {text html target : String} (read : tree.reading path = .content text)
      (compiled : (compileText maxDepth text).html = some html)
      (named : outputPath path out = .ok target) :
      Due tree path out maxDepth target (standalonePage (title path) html) := by
    obtain ⟨target', named', due⟩ := exists_due read compiled
    rw [named] at named'
    cases named'
    exact due
  cases ends with
  | unread noText =>
    refine .inl ⟨?_, rfl, rfl⟩
    cases read : tree.reading path with
    | missing => exact .missing read
    | unreadable reason => exact .unreadable read
    | content text => exact absurd read (noText text)
  | broken read noHtml => exact .inl ⟨.syntaxError read noHtml, rfl, rfl⟩
  | unnamed read compiled unnamed =>
    -- never: what can be read is a file, and so its path ends in a file name
    obtain ⟨target, named, _⟩ := exists_due read compiled
    rw [unnamed] at named
    cases named
  | @unwritten text html target reason read compiled named failed =>
    refine .inl ⟨?_, rfl, rfl⟩
    rw [FileTree.run_write] at failed
    cases wrote : tree.write target (standalonePage (title path) html) with
    | error error => exact .unwritable (due read compiled named) wrote
    | ok after =>
      rw [wrote] at failed
      cases failed
  | @written text html target after read compiled named wrote =>
    refine .inr ⟨rfl, target, _, due read compiled named, ?_⟩
    rw [FileTree.run_write] at wrote
    cases written : tree.write target (standalonePage (title path) html) with
    | error error =>
      rw [written] at wrote
      cases wrote
    | ok after =>
      rw [written] at wrote
      cases wrote
      rfl

theorem not_stops_of_write (due : Due tree path out maxDepth target page)
    (wrote : tree.write target page = .ok after) : ¬ Stops tree path out maxDepth := by
  obtain ⟨⟨text, html, stem, read, compiled, _⟩, _⟩ := id due
  intro stops
  cases stops with
  | missing read' =>
    rw [read] at read'
    cases read'
  | unreadable read' =>
    rw [read] at read'
    cases read'
  | syntaxError read' noHtml =>
    rw [read] at read'
    cases read'
    rw [compiled] at noHtml
    cases noHtml
  | unwritable due' failed =>
    obtain ⟨rfl, rfl⟩ := due.unique due'
    rw [wrote] at failed
    cases failed

/-- What a build may do. Only the file of its page can change, and nothing does if something stops
    it; otherwise the page stands there. It succeeds if it has written. -/
structure Built (tree : FileTree) (path : String) (out : Option String) (maxDepth exit : Nat)
    (after : FileTree) : Prop where
  stopped : Stops tree path out maxDepth → exit = 1 ∧ after = tree
  written : ¬ Stops tree path out maxDepth → exit = 0 ∧ ∃ target page,
    Due tree path out maxDepth target page ∧ after.find? target = some (.text page)
  files (place : Place) : after.entry? place ≠ tree.entry? place →
    ∃ target page, Due tree path out maxDepth target page ∧ tree.locate target = .ok place
  paths (other : String) : after.find? other ≠ tree.find? other →
    ∃ target page, Due tree path out maxDepth target page ∧ tree.locate other = tree.locate target
  succeeds : exit = 0 ↔ ∃ target page, Due tree path out maxDepth target page ∧
    tree.write target page = .ok after

theorem built_of_stops (stops : Stops tree path out maxDepth) :
    Built tree path out maxDepth 1 tree where
  stopped _ := ⟨rfl, rfl⟩
  written goesOn := absurd stops goesOn
  files _ changed := absurd rfl changed
  paths _ changed := absurd rfl changed
  succeeds := ⟨nofun, fun ⟨_, _, due, wrote⟩ => absurd stops (not_stops_of_write due wrote)⟩

theorem built_of_write (due : Due tree path out maxDepth target page)
    (wrote : tree.write target page = .ok after) : Built tree path out maxDepth 0 after := by
  obtain ⟨place, located, here, entries, elsewhere⟩ := FileTree.write_eq_ok wrote
  refine ⟨fun stops => absurd stops (not_stops_of_write due wrote),
    fun _ => ⟨rfl, target, page, due, here⟩, fun other changed => ?_, fun other changed => ?_,
    fun _ => ⟨target, page, due, wrote⟩, fun _ => rfl⟩
  · by_cases same : other = place
    · exact ⟨target, page, due, same ▸ located⟩
    · rw [entries, if_neg same] at changed
      exact absurd rfl changed
  · by_cases same : tree.locate other = .ok place
    · exact ⟨target, page, due, same.trans located.symm⟩
    · exact absurd (elsewhere other same) changed

def performIn (tree : FileTree) (threshold : Log.Threshold) (action : Action) :
    Outcome × FileTree := (perform FileTree.access threshold action).run tree

theorem perform_build (tree : FileTree) (threshold : Log.Threshold) (path : String)
    (out : Option String) (maxDepth : Nat) :
    Built tree path out maxDepth (performIn tree threshold (.build path out maxDepth)).1.exit
      (performIn tree threshold (.build path out maxDepth)).2 := by
  have ends := build_ends FileTree.access_lawful threshold path out maxDepth tree
  change BuildEnds FileTree.access path out maxDepth tree
    (performIn tree threshold (.build path out maxDepth)).1.exit
    (performIn tree threshold (.build path out maxDepth)).2 at ends
  rcases build_cases ends with ⟨stops, failed, same⟩ | ⟨succeeded, target, page, due, wrote⟩
  · rw [failed, same]
    exact built_of_stops stops
  · rw [succeeded]
    exact built_of_write due wrote

theorem perform_check (tree : FileTree) (threshold : Log.Threshold) (path : String)
    (format : Format) (maxDepth : Nat) :
    (performIn tree threshold (.check path format maxDepth)).2 = tree ∧
      (performIn tree threshold (.check path format maxDepth)).1.exit =
        match tree.reading path with
        | .content text => if (compileText maxDepth text).errors.isEmpty then 0 else 1
        | _ => 1 :=
  check_ends FileTree.access_lawful threshold path format maxDepth tree

theorem errors_isEmpty_of_noHtml {text : String}
    (noHtml : (compileText maxDepth text).html = none) :
    (compileText maxDepth text).errors.isEmpty = false := by
  unfold compileText Compiler.compile at *
  split at noHtml
  · rfl
  · cases noHtml

/-- Checks and listings change nothing, and builds only what they have to. A check succeeds if there
    is a text with nothing wrong in it; where there is a syntax error, a build fails as it does. -/
theorem perform_contract (tree : FileTree) (threshold : Log.Threshold) (path : String)
    (out : Option String) (maxDepth : Nat) :
    (∀ format,
      (performIn tree threshold (.check path format maxDepth)).2 = tree ∧
      ((performIn tree threshold (.check path format maxDepth)).1.exit = 0 ↔
        ∃ text, tree.reading path = .content text ∧ (compileText maxDepth text).errors = [])) ∧
    (performIn tree threshold .tags).2 = tree ∧
    Built tree path out maxDepth (performIn tree threshold (.build path out maxDepth)).1.exit
      (performIn tree threshold (.build path out maxDepth)).2 ∧
    ∀ text, tree.reading path = .content text → (compileText maxDepth text).html = none →
      (performIn tree threshold (.build path out maxDepth)).1.exit = 1 ∧
      ∀ format, (performIn tree threshold (.check path format maxDepth)).1.exit = 1 := by
  have built := perform_build tree threshold path out maxDepth
  refine ⟨fun format => ?_, rfl, built, fun text read noHtml => ⟨?_, fun format => ?_⟩⟩
  · obtain ⟨kept, exit⟩ := perform_check tree threshold path format maxDepth
    refine ⟨kept, ?_⟩
    rw [exit]
    cases read : tree.reading path with
    | missing => simp
    | unreadable reason => simp
    | content text => simp
  · exact (built.stopped (.syntaxError read noHtml)).1
  · obtain ⟨_, exit⟩ := perform_check tree threshold path format maxDepth
    rw [exit, read]
    simp [errors_isEmpty_of_noHtml noHtml]

def sampleTree : FileTree := ⟨[(⟨false, 0, ["a.dml"]⟩, .text "<text>x</text>")]⟩

theorem due_sample :
    Due sampleTree "a.dml" none 1 "a.html" (standalonePage "a" "<p>x</p>") where
  page_eq := ⟨"<text>x</text>", "<p>x</p>", "a", by decide +kernel, by decide +kernel, by decide +kernel, rfl⟩
  target_eq := .inr ⟨rfl, by decide +kernel⟩

theorem write_sample (page : String) : sampleTree.write "a.html" page =
    .ok (sampleTree.put ⟨false, 0, ["a.html"]⟩ (.text page)) := rfl

theorem perform_contract_sample :
    (performIn sampleTree Log.Level.warn.detail (.build "a.dml" none 1)).1.exit = 0 ∧
    (performIn sampleTree Log.Level.warn.detail (.build "a.dml" none 1)).2.find? "a.html" =
      some (.text (standalonePage "a" "<p>x</p>")) ∧
    (performIn sampleTree Log.Level.warn.detail (.build "a.dml" none 1)).2.find? "a.dml" =
      some (.text "<text>x</text>") := by
  obtain ⟨_, _, built, _⟩ := perform_contract sampleTree Log.Level.warn.detail "a.dml" none 1
  obtain ⟨succeeded, target, page, due, here⟩ :=
    built.written (not_stops_of_write due_sample (write_sample _))
  obtain ⟨rfl, rfl⟩ := due.unique due_sample
  refine ⟨succeeded, here, ?_⟩
  have kept : sampleTree.find? "a.dml" = some (.text "<text>x</text>") := by
    decide +kernel
  rw [← kept]
  by_contra changed
  obtain ⟨target, page, due', same⟩ := built.paths "a.dml" changed
  obtain ⟨rfl, rfl⟩ := due'.unique due
  have elsewhere : sampleTree.locate "a.dml" = .ok ⟨false, 0, ["a.dml"]⟩ ∧
      sampleTree.locate "a.html" = .ok ⟨false, 0, ["a.html"]⟩ := ⟨rfl, rfl⟩
  rw [elsewhere.1, elsewhere.2] at same
  simp at same

end Command

end PageMarkup
