import SpatialQuery.CommandLine.Run

/-!
The program. Files are those of the working directory; databases and map servers are out of its reach.
-/

namespace SpatialQuery.CommandLine

def readStoreFile (path : String) : IO Store.File := do
  try
    return .text (← IO.FS.readFile path)
  catch
    | .noFileOrDirectory .. => return .missing
    | _ => return .unreadable

/-- The directory in which a path is. -/
def directoryOf (path : String) : String :=
  match (path.toList.reverse.dropWhile (· != '/')).reverse with
  | [] => "."
  | cs => String.ofList cs

/-- Writes a file as a whole: what was there stays until the new file is complete. -/
def replaceFile (path content : String) : IO Bool := do
  try
    IO.FS.createDirAll (directoryOf path)
    let draft := path ++ ".new"
    IO.FS.writeFile draft content
    IO.FS.rename draft path
    return true
  catch _ => return false

/-- The seconds from the first of January 1970 to the first of January 2000. -/
def epochSeconds : Int := 946684800

/-- The time, as a fresh file is stamped with it. -/
def currentTime : IO Calendar.DateTime := do
  let (_, path) ← IO.FS.createTempFile
  let stamp := (← path.metadata).modified
  IO.FS.removeFile path
  let seconds := stamp.sec - epochSeconds
  return ⟨seconds / Calendar.DateTime.secondsPerDay, (seconds % Calendar.DateTime.secondsPerDay).toNat,
    stamp.nsec.toNat⟩

def host : Host IO :=
  { file := readStoreFile
    write := replaceFile
    now := currentTime
    server := fun _ => return .unreachable
    network := fun _ => return none }

def settingNames : List String :=
  [Settings.databaseUrlKey, Settings.poolSizeKey, Settings.defaultLimitKey, Settings.maxLimitKey,
    Settings.maxRowsKey, Settings.timeoutKey, Settings.allowUnionKey, Settings.allowedRelationsKey,
    Settings.storePathKey, Settings.mapServerUrlKey, Settings.mapServerUserKey,
    Settings.mapServerPasswordKey]

def readEnvironment : IO Environment := do
  let values ← settingNames.filterMapM fun name => return (← IO.getEnv name).map (name, ·)
  return ⟨values, []⟩

def usageText : String :=
  "Usage: geoview <compile|validate|run|infer|publish|unpublish|query> [OPTIONS]"

def runProgram (arguments : List String) : IO UInt32 := do
  match Command.ofArguments arguments with
  | .error .help =>
    IO.println usageText
    return 0
  | .error .version =>
    IO.println "geoview 0.1.0"
    return 0
  | .error _ =>
    IO.eprintln usageText
    return 2
  | .ok c =>
    let (failure, printed) ← c.perform host (← readEnvironment)
    IO.print printed.output
    IO.eprint printed.notes
    match failure with
    | none => return 0
    | some message =>
      IO.eprintln ("Error: " ++ message)
      return 1

end SpatialQuery.CommandLine

def main (arguments : List String) : IO UInt32 :=
  SpatialQuery.CommandLine.runProgram arguments
