import PageMarkup.Command.Run

namespace PageMarkup

def systemReason : IO.Error → String
  | .noFileOrDirectory .. => OpenError.notFound.message
  | .inappropriateType .. => OpenError.notDirectory.message
  | .illegalOperation .. => OpenError.isDirectory.message
  | error => toString error

def diskAccess : FileAccess IO where
  read path := do
    try
      match String.fromUTF8? (← IO.FS.readBinFile path) with
      | some text => return .content text
      | none => return .unreadable "stream did not contain valid UTF-8"
    catch
      | .noFileOrDirectory .. => return .missing
      | .inappropriateType .. => return .unreadable OpenError.isDirectory.message
      | error => return .unreadable (systemReason error)
  write path content := do
    try
      IO.FS.writeFile path content
      return none
    catch error => return some (systemReason error)

end PageMarkup

def main (arguments : List String) : IO UInt32 := do
  let outcome ← PageMarkup.Command.run PageMarkup.diskAccess (← IO.getEnv "RUST_LOG") arguments
  IO.print outcome.stdout
  IO.eprint outcome.stderr
  return outcome.exit.toUInt32
