import Mathlib.Computability.StateTransition
import NetworkingLab.Foundation.CString
import NetworkingLab.Foundation.ByteMemory

/-!
# The string program

`prg3.asm` reads two strings, writes the first of them twice into `string3` and
looks for the second one there.

A step executes the instructions from one label to the next jump or label.  The
registers that only carry the arguments of a system call are left out, and so
is `al`, which every block loads before it is used.  Addresses count from the
beginning of the section `.bss`.
-/

namespace NetworkingLab.StringSearch

open NetworkingLab.Foundation.CString
open NetworkingLab.Foundation.ByteMemory
open StateTransition (Reaches)

inductive Label where
  | start
  | read1
  | endRead1
  | read2
  | endRead2
  | mix
  | reInitLoopRet
  | reInitStr1
  | retmix
  | checkForStart
  | checkRemainRet
  | checkRemain
  | printYes
  | printNo
  | exit
  deriving DecidableEq, Repr

/-! ## The sections `.data` and `.bss` -/

/-- "string \n" -/
def message1 : List Byte :=
  [115, 116, 114, 105, 110, 103, 32, 10]

/-- "compare string\n" -/
def message2 : List Byte :=
  [99, 111, 109, 112, 97, 114, 101, 32, 115, 116, 114, 105, 110, 103, 10]

/-- "yes\n" -/
def message3 : List Byte :=
  [121, 101, 115, 10]

/-- "no\n" -/
def msg4 : List Byte :=
  [110, 111, 10]

def string1 : Nat := 0
def string2 : Nat := 50
def string3 : Nat := 100
def temp : Nat := 150
def looper : Nat := 151

structure State where
  label : Label
  ebx : Nat
  ecx : Nat
  memory : Nat → Byte
  stdin : List Byte
  stdout : List Byte

namespace State

/-- `mov byte[address], value` -/
def write (state : State) (address : Nat) (value : Byte) : State :=
  { state with memory := Function.update state.memory address value }

/-- The system call `write` to the standard output. -/
def print (state : State) (message : List Byte) : State :=
  { state with stdout := state.stdout ++ message }

/-- The system call `read` of one byte; at the end of the input it reads none. -/
def readByte (state : State) : State :=
  match state.stdin with
  | [] => state
  | byte :: stdin => { state.write temp byte with stdin := stdin }

def jmp (state : State) (label : Label) : State :=
  { state with label := label }

end State

/-! ## The blocks -/

def start (state : State) : State :=
  ({ state.print message1 with ebx := string1 }).jmp .read1

/-- The blocks `read1` and `read2`.  `push` and `pop` keep `ebx` over the call. -/
def read (again finished : Label) (state : State) : State :=
  let state := state.readByte
  if state.memory temp = 10 then
    state.jmp finished
  else
    let state := state.write state.ebx (state.memory temp)
    ({ state with ebx := state.ebx + 1 }).jmp again

def endRead1 (state : State) : State :=
  let state := (state.write state.ebx 0).print message2
  ({ state with ebx := string2 }).jmp .read2

def endRead2 (state : State) : State :=
  let state := state.write state.ebx 0
  ({ state with ebx := string1, ecx := string3 }.write looper 0).jmp .mix

def mix (state : State) : State :=
  if state.memory looper = 2 then
    state.jmp .retmix
  else
    let al := state.memory state.ebx
    if state.memory state.ebx = 0 then
      state.jmp .reInitStr1
    else
      let state := state.write state.ecx al
      ({ state with ebx := state.ebx + 1 }).jmp .reInitLoopRet

/-- `ecx` is moved on also when the end of `string1` was found. -/
def reInitLoopRet (state : State) : State :=
  ({ state with ecx := state.ecx + 1 }).jmp .mix

def reInitStr1 (state : State) : State :=
  let state := { state with ebx := string1 }
  (state.write looper (state.memory looper + 1)).jmp .reInitLoopRet

def retmix (state : State) : State :=
  let state := state.write state.ecx 0
  ({ state with ebx := string2, ecx := string3 }).jmp .checkForStart

def checkForStart (state : State) : State :=
  if state.memory state.ecx = 0 then
    state.jmp .printNo
  else
    let al := state.memory state.ebx
    if state.memory state.ecx = al then
      state.jmp .checkRemain
    else
      state.jmp .checkRemainRet

/-- The search goes on with the `ebx` at which the comparison failed. -/
def checkRemainRet (state : State) : State :=
  ({ state with ecx := state.ecx + 1 }).jmp .checkForStart

def checkRemain (state : State) : State :=
  if state.memory state.ebx = 0 then
    state.jmp .printYes
  else
    let al := state.memory state.ebx
    if state.memory state.ecx ≠ al then
      state.jmp .checkRemainRet
    else
      ({ state with ecx := state.ecx + 1, ebx := state.ebx + 1 }).jmp
        .checkRemain

def printYes (state : State) : State :=
  (state.print message3).jmp .exit

def printNo (state : State) : State :=
  (state.print msg4).jmp .exit

def step (state : State) : Option State :=
  match state.label with
  | .start => some (start state)
  | .read1 => some (read .read1 .endRead1 state)
  | .endRead1 => some (endRead1 state)
  | .read2 => some (read .read2 .endRead2 state)
  | .endRead2 => some (endRead2 state)
  | .mix => some (mix state)
  | .reInitLoopRet => some (reInitLoopRet state)
  | .reInitStr1 => some (reInitStr1 state)
  | .retmix => some (retmix state)
  | .checkForStart => some (checkForStart state)
  | .checkRemainRet => some (checkRemainRet state)
  | .checkRemain => some (checkRemain state)
  | .printYes => some (printYes state)
  | .printNo => some (printNo state)
  | .exit => none

/-- The program at its start; the section `.bss` is zero. -/
def initial (stdin : List Byte) : State where
  label := .start
  ebx := 0
  ecx := 0
  memory := fun _ => 0
  stdin := stdin
  stdout := []

theorem reaches_step {state next : State} (move : step state = some next) :
    Reaches step state next :=
  Relation.ReflTransGen.single move

end NetworkingLab.StringSearch
