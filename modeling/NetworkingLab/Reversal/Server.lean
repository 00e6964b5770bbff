import NetworkingLab.Foundation.Echo
import NetworkingLab.Foundation.FileStream

/-!
# The reversing server

The server stores what it receives in the file `temp` and sends the file back
from its end.  Every segment is received at the start of one block and printed
into the file with `%s`, so the older bytes behind it are printed too.  The
reply loop counts the received bytes down to 1, while it walks back from the
end of the file.

`reverses_iff` says for which segments the reply is the received text without
its last byte in reverse.  An empty text is not among them: its count starts at
0 and never meets 1.
-/

namespace NetworkingLab.Reversal

open NetworkingLab.Foundation.CString
open NetworkingLab.Foundation.Echo
open NetworkingLab.Foundation.FileStream

/-- `INT_MAX`; `INT_MIN` is one below its negative. -/
def intMax : Int :=
  2147483647

/-- The number of values of the type `int`. -/
def replyPasses : Nat :=
  4294967296

/-- What one call of `recv` returns before the end of the stream. -/
structure Segment where
  bytes : List Byte
  nonempty : bytes ≠ []
  fits : bytes.length ≤ 256

/-- The block that `malloc` returns, with what stands behind it. -/
structure Block where
  bytes : List Byte
  size : 256 ≤ bytes.length

/-- The received text. -/
def received (segments : List Segment) : List Byte :=
  (segments.map Segment.bytes).flatten

/-! ## The server -/

/--
The receive loop, which ends when `recv` returns 0.  `none` stands for a count
that leaves the type `int`, or a block without terminator.
-/
def receiveLoop :
    List (List Byte) → Int → List Byte → Stream → Option (Int × Stream)
  | [], total, _, nf => some (total, nf)
  | segment :: segments, total, buffer, nf =>
      let buffer := overwrite segment buffer
      let total := total + segment.length
      if intMax < total then
        none
      else
        match strlen buffer with
        | none => none
        | some length =>
            receiveLoop segments total buffer
              (nf.write (buffer.take length))

/--
The loop `while(total != 1)`, with the bytes it sends.  `none` stands for a
count that leaves the type `int`.
-/
def replyLoop : Nat → Int → Stream → Option (List Byte)
  | 0, _, _ => none
  | passes + 1, total, nf =>
      if total = 1 then
        some []
      else
        let (c, nf) := nf.fgetc
        -- the `char` that `EOF` becomes is 255
        let temp := c.getD 255
        let nf := nf.seekCur (-2)
        if total - 1 < -intMax - 1 then
          none
        else
          (replyLoop passes (total - 1) nf).map (temp :: ·)

/--
The server from its first `recv` to `shutdown`.  A count of 32 bits is at 1 or
leaves its type before the passes are used up.
-/
def serve (segments : List Segment) (block : Block) :
    Option (List Byte) :=
  (receiveLoop (segments.map Segment.bytes) 0 block.bytes
    Stream.empty).bind fun stored =>
      replyLoop replyPasses stored.1 (stored.2.seekCur (-2))

/-! ## The file -/

/-- The loop prints what the block passes on, if the count stays an `int`. -/
theorem receiveLoop_eq_echo
    (segments : List (List Byte)) {total : Int} (counted : total ≤ intMax)
    (buffer contents : List Byte) :
    receiveLoop segments total buffer (Stream.ended contents) =
      if total + segments.flatten.length ≤ intMax then
        (echo segments buffer).map fun printed =>
          (total + segments.flatten.length,
            Stream.ended (contents ++ printed))
      else
        none := by
  induction segments generalizing total buffer contents with
  | nil => simp [receiveLoop, echo, counted]
  | cons segment segments induction =>
      have sum : total + (segment :: segments).flatten.length =
          total + segment.length + segments.flatten.length := by
        rw [List.flatten_cons, List.length_append]
        omega
      rw [sum, receiveLoop, echo]
      by_cases large : intMax < total + segment.length
      · rw [if_pos large, if_neg (by omega)]
      · rw [if_neg large]
        cases strlen (overwrite segment buffer) with
        | none => simp
        | some length =>
            have later := induction (Int.not_lt.mp large)
              (overwrite segment buffer)
              (contents ++ (overwrite segment buffer).take length)
            simp only [Stream.write_ended, later, Option.map_map,
              Function.comp_def, List.append_assoc]

/-! ## The reply -/

/-- A count below 1 is not stopped before it leaves its type. -/
theorem replyLoop_none
    (passes : Nat) {total : Int} (small : total ≤ 0) (nf : Stream) :
    replyLoop passes total nf = none := by
  induction passes generalizing total nf with
  | zero => rfl
  | succ passes induction =>
      have less : total - 1 ≤ 0 := by omega
      rw [replyLoop, if_neg (by omega)]
      rcases nf.fgetc with ⟨c, next⟩
      simp only [induction less (next.seekCur (-2)), Option.map_none,
        ite_self]

/-- A count of 1 ends the loop. -/
theorem replyLoop_one {passes : Nat} (enough : 0 < passes) (nf : Stream) :
    replyLoop passes 1 nf = some [] := by
  obtain ⟨passes, rfl⟩ := Nat.exists_eq_succ_of_ne_zero
    (Nat.ne_of_gt enough)
  rw [Nat.succ_eq_add_one, replyLoop, if_pos rfl]

/-- From position `p` the loop sends `k` bytes backwards. -/
theorem replyLoop_spec
    (contents : List Byte) {passes k p : Nat}
    (enough : k < passes) (bound : k ≤ p + 1)
    (inside : k ≠ 0 → p < contents.length) :
    replyLoop passes (k + 1) ⟨contents, p⟩ =
      some ((contents.take (p + 1)).drop (p + 1 - k)).reverse := by
  induction k generalizing passes p with
  | zero =>
      have none_left : (contents.take (p + 1)).drop (p + 1 - 0) = [] := by
        rw [List.drop_eq_nil_iff, List.length_take]
        omega
      rw [none_left]
      exact replyLoop_one enough _
  | succ k induction =>
      obtain ⟨passes, rfl⟩ := Nat.exists_eq_succ_of_ne_zero
        (Nat.ne_of_gt (Nat.zero_lt_of_lt enough))
      have here := inside (Nat.succ_ne_zero k)
      have count : ((k + 1 : Nat) : Int) + 1 - 1 = (k : Int) + 1 := by
        omega
      have other : ((k + 1 : Nat) : Int) + 1 ≠ 1 := by omega
      have wide : ¬ ((k : Int) + 1 < -intMax - 1) := by
        rw [intMax]
        omega
      have front : (contents.take (p + 1)).drop (p + 1 - (k + 1)) =
          (contents.take p).drop (p - k) ++ [contents[p]] := by
        rw [List.take_add_one, List.getElem?_eq_getElem here,
          Option.toList_some, Nat.add_sub_add_right,
          List.drop_append_of_le_length]
        rw [List.length_take]
        omega
      rw [front, List.reverse_append, List.reverse_singleton,
        List.singleton_append, Nat.succ_eq_add_one, replyLoop,
        if_neg other, Stream.fgetc_of_lt here, count]
      simp only [if_neg wide, Option.getD_some]
      cases p with
      | zero =>
          -- the seek fails, and the count is 1
          have last : k = 0 := by omega
          subst last
          have left := replyLoop_one (show 0 < passes by omega)
            (Stream.seekCur ⟨contents, 0 + 1⟩ (-2))
          have counted : ((0 : Nat) : Int) + 1 = 1 := by omega
          rw [counted, left]
          simp
      | succ p =>
          have later := @induction passes p (by omega) (by omega)
            (fun _ => by omega)
          rw [Stream.stepBack, later, Option.map_some]

/-! ## Texts that are reversed -/

/-- The reply is the text without its last byte, in reverse. -/
def Reverses (segments : List Segment) (block : Block) : Prop :=
  serve segments block = some (received segments).dropLast.reverse

/--
The text is not empty and short enough to be counted, every segment is ended
by a zero byte in the block, and the segments with the older bytes behind them
end like the text, apart from the last byte.
-/
structure Reversible (segments : List Segment) (block : Block) :
    Prop where
  nonempty : segments ≠ []
  counted : (received segments).length ≤ intMax
  terminated : TerminatedAll (segments.map Segment.bytes) block.bytes
  ending : (received segments).dropLast <:+
    (spilled (segments.map Segment.bytes) block.bytes).dropLast

theorem received_ne_nil
    {segments : List Segment} (nonempty : segments ≠ []) :
    received segments ≠ [] := by
  obtain ⟨segment, later, rfl⟩ := List.exists_cons_of_ne_nil nonempty
  simp [received, segment.nonempty]

/-- The reply of a server that has printed `printed`. -/
theorem serve_eq
    {segments : List Segment} {block : Block} {printed : List Byte}
    (counted : (received segments).length ≤ intMax)
    (echoed : echo (segments.map Segment.bytes) block.bytes =
      some printed) :
    serve segments block =
      replyLoop replyPasses (received segments).length
        ((Stream.ended printed).seekCur (-2)) := by
  have loop := receiveLoop_eq_echo (segments.map Segment.bytes)
    (show (0 : Int) ≤ intMax by decide) block.bytes []
  rw [Int.zero_add, ← received, if_pos counted, echoed] at loop
  have start : Stream.empty = Stream.ended [] := rfl
  rw [serve, start, loop, Option.map_some, Option.bind_some,
    List.nil_append]

/-- A text that is too long or not terminated gets no reply. -/
theorem exists_echo_of_serve
    {segments : List Segment} {block : Block} {sent : List Byte}
    (reply : serve segments block = some sent) :
    (received segments).length ≤ intMax ∧
      ∃ printed,
        echo (segments.map Segment.bytes) block.bytes = some printed := by
  have loop := receiveLoop_eq_echo (segments.map Segment.bytes)
    (show (0 : Int) ≤ intMax by decide) block.bytes []
  have start : Stream.empty = Stream.ended [] := rfl
  rw [Int.zero_add, ← received] at loop
  rw [serve, start, loop] at reply
  split_ifs at reply with counted
  · refine ⟨counted, ?_⟩
    cases echoed : echo (segments.map Segment.bytes) block.bytes with
    | none => simp [echoed] at reply
    | some printed => exact ⟨printed, rfl⟩
  · cases reply

/-- What is sent back of a printed text that is at least as long. -/
theorem replyLoop_ended
    {printed : List Byte} {count passes : Nat}
    (positive : 0 < count) (long : count ≤ printed.length)
    (enough : count ≤ passes) :
    replyLoop passes count ((Stream.ended printed).seekCur (-2)) =
      some (printed.dropLast.drop (printed.length - count)).reverse := by
  obtain ⟨k, rfl⟩ := Nat.exists_eq_succ_of_ne_zero
    (Nat.ne_of_gt positive)
  rw [Int.natCast_succ]
  rcases Nat.eq_zero_or_pos k with rfl | more
  · have none_left : printed.dropLast.drop (printed.length - 1) = [] := by
      rw [List.drop_eq_nil_iff, List.length_dropLast]
    rw [Nat.succ_eq_add_one, Nat.zero_add, none_left]
    exact replyLoop_one enough _
  · have place : printed.length - 2 + 1 = printed.length - 1 := by omega
    have rest : printed.length - 1 - k = printed.length - (k + 1) := by
      omega
    have reply := @replyLoop_spec printed passes k (printed.length - 2)
      (by omega) (by omega) (fun _ => by omega)
    rw [Stream.seekCur_ended (by omega), Nat.succ_eq_add_one,
      List.dropLast_eq_take, ← rest, ← place]
    exact reply

/-- The passes are enough for every count of 32 bits. -/
theorem le_replyPasses {count : Nat} (counted : (count : Int) ≤ intMax) :
    count ≤ replyPasses := by
  rw [intMax] at counted
  rw [replyPasses]
  omega

/-- The count of an empty text starts below 1. -/
theorem serve_nil (block : Block) : serve [] block = none := by
  have loop := @serve_eq [] block []
    (show ((received []).length : Int) ≤ intMax by decide) rfl
  rw [loop]
  exact replyLoop_none _ (Int.le_refl 0) _

/-- What stands at the end of a printed text, the last byte apart. -/
theorem drop_eq_iff_suffix
    {text printed : List Byte} (long : text.length ≤ printed.length) :
    printed.dropLast.drop (printed.length - text.length) =
        text.dropLast ↔
      text.dropLast <:+ printed.dropLast := by
  by_cases empty : text = []
  · subst empty
    constructor
    · intro _
      exact List.nil_suffix
    · intro _
      rw [List.dropLast_nil, List.drop_eq_nil_iff, List.length_dropLast]
      exact Nat.sub_le _ _
  · have positive := List.length_pos_iff.mpr empty
    have place : printed.dropLast.length - text.dropLast.length =
        printed.length - text.length := by
      rw [List.length_dropLast, List.length_dropLast]
      omega
    rw [List.suffix_iff_eq_drop, place]
    exact eq_comm

/--
The server sends back the received text without its last byte in reverse if
and only if the text is one of these.
-/
theorem reverses_iff
    (segments : List Segment) (block : Block)
    (free : NulFree (received segments)) :
    Reverses segments block ↔ Reversible segments block := by
  have echoes := echo_eq_some_iff free block.bytes
  by_cases empty : segments = []
  · subst empty
    constructor
    · intro reverses
      rw [Reverses, serve_nil] at reverses
      cases reverses
    · intro reversible
      exact absurd rfl reversible.nonempty
  · have positive := List.length_pos_iff.mpr (received_ne_nil empty)
    constructor
    · intro reverses
      rcases exists_echo_of_serve reverses with ⟨counted, printed, echoed⟩
      have long : (received segments).length ≤ _ :=
        flatten_length_le free echoed
      rw [Reverses, serve_eq counted echoed,
        replyLoop_ended positive long (le_replyPasses counted),
        Option.some.injEq, List.reverse_inj, drop_eq_iff_suffix long]
        at reverses
      rcases (echoes printed).mp echoed with ⟨terminated, rfl⟩
      exact ⟨empty, counted, terminated, reverses⟩
    · intro reversible
      have echoed := (echoes _).mpr ⟨reversible.terminated, rfl⟩
      have long : (received segments).length ≤ _ :=
        flatten_length_le free echoed
      rw [Reverses, serve_eq reversible.counted echoed,
        replyLoop_ended positive long (le_replyPasses reversible.counted),
        Option.some.injEq, List.reverse_inj, drop_eq_iff_suffix long]
      exact reversible.ending

/-- The text "hi there" with its newline, in two segments. -/
def greeting : List Segment :=
  [⟨[104, 105, 32], by decide, by decide⟩,
    ⟨[116, 104, 101, 114, 101, 10], by decide, by decide⟩]

/-- A block of zero bytes. -/
def zeroBlock : Block :=
  ⟨List.replicate 256 0, Nat.le_of_eq List.length_replicate.symm⟩

theorem reverses_greeting : Reverses greeting zeroBlock := by
  apply (reverses_iff greeting zeroBlock (by decide)).mpr
  refine ⟨by decide, by decide, ⟨by decide, by decide, trivial⟩, ?_⟩
  exact List.suffix_refl [104, 105, 32, 116, 104, 101, 114, 101]

/-- An empty text is not answered with nothing. -/
theorem empty_text_not_reversed :
    ¬ ∀ (segments : List Segment) (block : Block),
      NulFree (received segments) →
        (received segments ≠ [] →
          (received segments).getLast? = some 10) →
            Reverses segments block := by
  intro always
  have reverses := always [] zeroBlock nulFree_nil (absurd rfl)
  rw [Reverses, serve_nil] at reverses
  cases reverses

end NetworkingLab.Reversal
