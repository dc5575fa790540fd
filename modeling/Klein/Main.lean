import Klein.Tool

open Klein

/-- Run the program that the first argument names on the text that the second one holds. -/
def main (arguments : List String) : IO UInt32 := do
  match arguments with
  | [] => usage
  | name :: rest =>
    match Tool.ofName? name with
    | none => usage
    | some tool =>
      let (output, _) := tool.run (some usualNesting) {} (rest.headD "")
      IO.print output.text
      return output.exitCode.toUInt32
where
  usage : IO UInt32 := do
    let names := Text.join " | " (Tool.all.map Tool.name)
    IO.eprintln ("usage: klein (" ++ names ++ ") [program text]")
    return 2
