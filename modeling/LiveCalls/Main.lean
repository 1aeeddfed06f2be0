import LiveCalls.CommandLine.Report

namespace LiveCalls

/-- The folder at an absolute path with the files in it. A folder that cannot be read is left out,
and a file that cannot be read counts as one whose bytes are no text. -/
def snapshot (root : Path) : IO Disk := do
  try
    let entries ← ((← IO.currentDir) / root.text).readDir
    let mut disk := Disk.empty.makeFolder root
    for entry in entries do
      if ← (do return (← entry.path.metadata).type == .file) <|> pure false then
        let bytes ← IO.FS.readBinFile entry.path <|> pure ⟨#[0xff]⟩
        disk := disk.write (root.join ⟨entry.fileName⟩) bytes
    return disk
  catch _ => return .empty

end LiveCalls

open LiveCalls in
def main (args : List String) : IO UInt32 := do
  let here : Path := ⟨(← IO.currentDir).toString⟩
  let disk ← match CommandLine.Command.parse? args with
    | some (.check scripts) | some (.run scripts ..) => snapshot (here.join ⟨scripts⟩)
    | none => pure .empty
  let report := CommandLine.respond (fun _ => "no cause is known") disk here args
  for line in report.lines do
    IO.println line
  return report.status.toUInt32
