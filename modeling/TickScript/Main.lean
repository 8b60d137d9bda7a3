-- The command line: files, standard input and output, and the passing of time.
import TickScript.FileTree
import TickScript.Program

namespace TickScript

/-- The words of the system for a file that cannot be read. -/
def describeReadError : IO.Error → String
  | .noFileOrDirectory .. => FileFault.message .missing
  | .inappropriateType .. => FileFault.message .isDirectory
  | e => toString e

/-- Waits for ever, as an evaluation without an end does. -/
partial def waitForever : IO Unit := do
  IO.sleep 1000
  waitForever

/-- Shows lines on standard output. -/
def showLines (elapsed : Option String) (lines : List ReplyLine) : IO Unit := do
  let out ← IO.getStdout
  for line in lines do
    out.putStrLn (line.render elapsed)
  out.flush

/-- Has an answer made and shows it, after the time that scripts have asked to wait. -/
def answerOnScreen (quiet : Bool) (machine : Machine) (action : Run Reply) :
    IO (Bool × Machine) := do
  let start ← IO.monoNanosNow
  let result ← IO.lazyPure fun _ => action ⟨.empty, machine⟩
  match result with
  | .ok reply s =>
    IO.sleep (UInt32.ofNat (min s.machine.owed Text.mostNat32))
    let stop ← IO.monoNanosNow
    let elapsed := if quiet then none else some (describeElapsed ((stop - start) / 1000))
    showLines elapsed reply.lines
    return (reply.quit, { s.machine with owed := 0 })
  | .error _ s =>
    waitForever
    return (true, s.machine)

/-- Whether something can be opened at a path. -/
def canOpen (path : String) : IO Bool := do
  try
    let _ ← IO.FS.Handle.mk path .read
    return true
  catch _ => return false

/-- The system that the program is started on. -/
def systemWorld (quiet : Bool) : World IO where
  readText path := do
    try return .ok (← IO.FS.readFile path)
    catch e => return .error (describeReadError e)
  pathExists := canOpen
  home := IO.getEnv "HOME"
  answer := answerOnScreen quiet
  complain line := IO.eprintln line

/-- Puts the lines of standard input into a queue until the input ends. -/
partial def collectLines (queue : IO.Ref (Array String)) (ended : IO.Ref Bool) : IO Unit := do
  let line ← (← IO.getStdin).getLine
  if line.isEmpty then ended.set true
  else
    for text in Text.lines line do
      queue.modify (·.push text)
    collectLines queue ended

/-- Answers the lines in the queue, and counts a tick whenever one is due. Ticks that a long
answer let pass are left out. -/
partial def listen (w : World IO) (console : Console) (tickLength : Nat) (machine : Machine)
    (queue : IO.Ref (Array String)) (ended : IO.Ref Bool) (nextTick : Nat) : IO Unit := do
  let finished ← ended.get
  let lines ← queue.modifyGet fun lines => (lines, #[])
  let (quit, machine) ← Program.runLines w console machine lines.toList
  if quit || finished then return
  let now ← IO.monoMsNow
  if nextTick ≤ now then
    let (_, machine) ← w.answer machine do
      return { lines := ← Console.tick .standard, quit := false }
    let missed := (now - nextTick) / tickLength
    listen w console tickLength machine queue ended (nextTick + (missed + 1) * tickLength)
  else
    IO.sleep 1
    listen w console tickLength machine queue ended nextTick

end TickScript

open TickScript

/-- Starts the program, and reads the console if the arguments lead there. -/
def main (arguments : List String) : IO UInt32 := do
  let quiet := match CommandLine.read arguments with
    | .ok line => line.quiet
    | .error _ => false
  let w := systemWorld quiet
  match ← Program.start w (UInt64.ofNat (← IO.monoNanosNow)) arguments with
  | .finished code => return UInt32.ofNat code
  | .listening console tickLength machine =>
    let queue ← IO.mkRef #[]
    let ended ← IO.mkRef false
    let _ ← IO.asTask (collectLines queue ended) .dedicated
    listen w console tickLength machine queue ended (← IO.monoMsNow)
    return 0
