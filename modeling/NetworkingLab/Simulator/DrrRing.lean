import NetworkingLab.Foundation.CircularList
import NetworkingLab.Foundation.DeficitRoundRobin
import NetworkingLab.Simulator.Drr

/-!
# The buckets form a ring

The pointers of the buckets and the counters of the queue represent a state of
deficit round robin (`Represents`), and every step of the code is a step of it:
a packet is accepted (`Represents.accept`), one is dropped from a longest
bucket (`Represents.dropFrom`, `Represents.getMaxflow`), and the bucket whose
turn it is sends a packet or passes (`Represents.turn`).
-/

namespace NetworkingLab.Simulator

open NetworkingLab.Foundation
open NetworkingLab.Foundation.CircularList
open NetworkingLab.Foundation.DeficitRoundRobin

/-- The fields of a bucket agree with an account. -/
structure PacketDRR.Books (q : PacketDRR) (a : Account Packet) :
    Prop where
  packets : q.queue.packets = a.queue
  pkts : q.pkts = a.queue.length
  bcount : q.bcount = a.weigh Packet.size
  deficit : q.deficitCounter = a.deficit
  turn : q.turn = a.turn

namespace DRR

/-- The pointers of the buckets. -/
def links (d : DRR) : Links Nat :=
  ⟨fun b => (d.drr b).next, fun b => (d.drr b).prev⟩

/-- The queue with other pointers. -/
def relinked (links : Links Nat) (curr : Option Nat) (d : DRR) : DRR :=
  { d with
    curr
    drr := fun b =>
      { d.drr b with prev := links.prev b, next := links.next b } }

theorem drr_put (b c : Nat) (change : PacketDRR → PacketDRR) (d : DRR) :
    (d.put b change).drr c =
      if c = b then change (d.drr b) else d.drr c :=
  Function.update_apply d.drr b _ c

theorem unlink_eq
    {d : DRR} {this next prev : Nat}
    (before : d.links.prev this = some prev)
    (after : d.links.next this = some next) :
    d.unlink this = some (d.relinked (d.links.link prev next) d.curr) := by
  change (d.drr this).next = some next at after
  change (d.drr this).prev = some prev at before
  rw [unlink, after, before]
  refine congrArg some (congrArg (DRR.mk _ _ _ _) (funext fun b => ?_))
  simp only [links, Links.link, put, Function.update_apply]
  split <;> split <;> simp_all

theorem activate_eq
    {d : DRR} {this head last : Nat} (curr : d.curr = some head)
    (before : d.links.prev head = some last) (notHead : head ≠ this)
    (notLast : last ≠ this) :
    d.activate this =
      some (d.relinked ((d.links.link last this).link this head)
        d.curr) := by
  rcases d with ⟨bytecnt, pktcnt, flwcnt, current, drr⟩
  cases curr
  change (drr head).prev = some last at before
  simp only [activate, before]
  refine congrArg some (congrArg (DRR.mk _ _ _ _) (funext fun b => ?_))
  simp only [links, Links.link, put, Function.update_apply]
  split <;> split <;> split <;> simp_all

/-- Putting a bucket into the ring only changes pointers. -/
theorem activate_spec
    {d : DRR} {ring : List Nat} (circular : Circular d.links ring)
    (curr : d.curr = ring.head?) (nodup : ring.Nodup) {this : Nat}
    (fresh : this ∉ ring) :
    ∃ links',
      d.activate this =
        some (d.relinked links' (ring ++ [this]).head?) ∧
      Circular links' (ring ++ [this]) := by
  cases ring with
  | nil =>
      refine ⟨d.links.link this this, ?_, Circular.single this d.links⟩
      rcases d with ⟨bytecnt, pktcnt, flwcnt, current, drr⟩
      cases curr
      simp only [activate]
      refine congrArg some (congrArg (DRR.mk _ _ _ _) (funext fun b => ?_))
      simp only [links, Links.link, put, Function.update_apply]
      split <;> simp_all
  | cons head rest =>
      rcases circular.insert nodup fresh with ⟨last, notLast, before, linked⟩
      have notHead : head ≠ this := fun same =>
        fresh (same ▸ List.mem_cons_self)
      refine ⟨_, ?_, linked⟩
      rw [activate_eq curr before notHead notLast, curr]
      rfl

/-- Taking a bucket out of the ring only changes pointers. -/
theorem idle_spec
    {d : DRR} {ring : List Nat} (circular : Circular d.links ring)
    (curr : d.curr = ring.head?) (nodup : ring.Nodup) {this : Nat}
    (member : this ∈ ring) :
    ∃ links', d.idle this = some (d.relinked links' (ring.erase this).head?) ∧
      Circular links' (ring.erase this) := by
  rw [idle]
  by_cases isHead : d.curr = some this
  · rw [if_pos isHead]
    rw [curr] at isHead
    rcases List.head?_eq_some_iff.mp isHead with ⟨rest, rfl⟩
    rw [List.erase_cons_head]
    cases rest with
    | nil =>
        have alone : (d.drr this).next = some this := circular.1
        rw [if_pos alone]
        exact ⟨d.links, rfl, trivial⟩
    | cons b rest =>
        rcases circular.removeHead nodup with
          ⟨last, different, before, after, linked⟩
        have others : (d.drr this).next ≠ some this := by
          intro same
          have next : (d.drr this).next = some b := after
          rw [next] at same
          exact (List.nodup_cons.mp nodup).1
            (Option.some.inj same ▸ List.mem_cons_self)
        rw [if_neg others, unlink_eq before after]
        refine ⟨_, ?_, linked⟩
        have kept : (d.links.link last b).next this = some b := by
          rw [← after]
          exact Function.update_of_ne (Ne.symm different) _ _
        exact congrArg (fun c => some (d.relinked _ c)) kept
  · rw [if_neg isHead]
    have others : ring ≠ [this] := by
      rintro rfl
      exact isHead curr
    rcases circular.remove nodup member others with
      ⟨before, after, prev, next, linked⟩
    refine ⟨_, ?_, linked⟩
    rw [unlink_eq prev next, curr]
    congr 2
    rw [curr] at isHead
    cases ring with
    | nil => exact absurd member List.not_mem_nil
    | cons a rest =>
        have different : a ≠ this := fun same => isHead (congrArg some same)
        rw [List.erase_cons_tail (by simpa using different)]
        rfl

/-- Represented by the ring of buckets and their accounts. -/
structure Represents (d : DRR) (s : Robin Nat Packet) : Prop where
  circular : Circular d.links s.ring
  curr : d.curr = s.ring.head?
  books : ∀ b, (d.drr b).Books (s.account b)
  bytecnt : d.bytecnt = tally (Account.weigh Packet.size) s
  pktcnt : d.pktcnt = tally (Account.weigh fun _ => 1) s
  flwcnt : d.flwcnt = s.ring.length

theorem links_put
    {change : PacketDRR → PacketDRR}
    (pointers : ∀ q, (change q).prev = q.prev ∧ (change q).next = q.next)
    (b : Nat) (d : DRR) : (d.put b change).links = d.links := by
  have kept : ∀ c, ((d.put b change).drr c).prev = (d.drr c).prev ∧
      ((d.put b change).drr c).next = (d.drr c).next := by
    intro c
    rw [drr_put]
    split
    · next same => exact same ▸ pointers _
    · exact ⟨rfl, rfl⟩
  simp only [links, kept]

/-- A bucket is written, and an account with it. -/
theorem books_put
    {d : DRR} {account : Nat → Account Packet}
    (books : ∀ c, (d.drr c).Books (account c)) {b : Nat}
    {change : PacketDRR → PacketDRR} {a : Account Packet}
    (changed : (change (d.drr b)).Books a) (c : Nat) :
    ((d.put b change).drr c).Books (Function.update account b a c) := by
  rw [drr_put, Function.update_apply]
  split
  · exact changed
  · exact books c

theorem books_relinked
    {d : DRR} {account : Nat → Account Packet}
    (books : ∀ c, (d.drr c).Books (account c)) (links' : Links Nat)
    (curr : Option Nat) (c : Nat) :
    ((d.relinked links' curr).drr c).Books (account c) :=
  ⟨(books c).packets, (books c).pkts, (books c).bcount,
    (books c).deficit, (books c).turn⟩

/-- One round of the loop of `getMaxflow` takes the larger of two buckets. -/
theorem larger_spec (d : DRR) (best a : Nat) :
    let larger := if (d.drr best).bcount < (d.drr a).bcount then a else best
    (larger = best ∨ larger = a) ∧
      (d.drr best).bcount ≤ (d.drr larger).bcount ∧
      (d.drr a).bcount ≤ (d.drr larger).bcount := by
  dsimp only
  split
  · next less => exact ⟨Or.inr rfl, less.le, le_refl _⟩
  · next more => exact ⟨Or.inl rfl, le_refl _, not_lt.mp more⟩

/-- The loop of `getMaxflow` along a path. -/
theorem getMaxflowFrom_path
    {d : DRR} {a b : Nat} {xs : List Nat} (path : Path d.links a xs b)
    (best : Nat) :
    ∃ f, (f = best ∨ f ∈ a :: xs) ∧
      d.getMaxflowFrom (xs.length + 1) (some a) best = some f ∧
      (d.drr best).bcount ≤ (d.drr f).bcount ∧
      ∀ g ∈ a :: xs, (d.drr g).bcount ≤ (d.drr f).bcount := by
  induction xs generalizing a best with
  | nil =>
      rcases d.larger_spec best a with ⟨which, overBest, overA⟩
      refine ⟨_, which.imp_right List.mem_singleton.mpr, rfl, overBest, ?_⟩
      intro g member
      rw [List.mem_singleton.mp member]
      exact overA
  | cons x xs induction =>
      rcases path with ⟨first, rest⟩
      rcases d.larger_spec best a with ⟨which, overBest, overA⟩
      rcases induction rest
        (if (d.drr best).bcount < (d.drr a).bcount then a else best) with
        ⟨f, origin, found, overLarger, overRest⟩
      have next : (d.drr a).next = some x := first.1
      refine ⟨f, ?_, ?_, overBest.trans overLarger, ?_⟩
      · rcases origin with same | later
        · rw [same]
          rcases which with old | new
          · exact Or.inl old
          · right
            rw [new]
            exact List.mem_cons_self
        · exact Or.inr (List.mem_cons_of_mem a later)
      · rw [List.length_cons, getMaxflowFrom, next]
        exact found
      · intro g member
        rcases List.mem_cons.mp member with rfl | later
        · exact overA.trans overLarger
        · exact overRest g later

namespace Represents

variable {d : DRR} {s : Robin Nat Packet} {quantum bound : Int}

theorem start : Represents .start DeficitRoundRobin.start where
  circular := trivial
  curr := rfl
  books _ := ⟨rfl, rfl, rfl, rfl, rfl⟩
  bytecnt := rfl
  pktcnt := rfl
  flwcnt := rfl

/-- A packet comes in at the end of its bucket. -/
theorem accept
    (represents : d.Represents s)
    (sound : Sound Packet.size quantum bound s) (b : Nat) (p : Packet) :
    ∃ next, d.accept b p = some next ∧ next.Represents (arrive b p s) := by
  let fill : PacketDRR → PacketDRR := fun q =>
    { q with
      queue := q.queue.enque p
      pkts := q.pkts + 1
      bcount := q.bcount + p.size }
  let filled : DRR :=
    { d.put b fill with
      bytecnt := d.bytecnt + p.size
      pktcnt := d.pktcnt + 1 }
  have unfolded : d.accept b p =
      if (filled.drr b).pkts = 1 then
        (filled.activate b).map fun d =>
          { d.put b fun q => { q with deficitCounter := 0 } with
            flwcnt := d.flwcnt + 1 }
      else
        some filled :=
    rfl
  have pointers : filled.links = d.links :=
    @links_put fill (fun _ => ⟨rfl, rfl⟩) b d
  have old := represents.books b
  have books := @books_put d s.account represents.books b fill
    ⟨(s.account b).queue ++ [p], (s.account b).deficit, (s.account b).turn⟩
    ⟨by simp [fill, PacketQueue.enque, old.packets],
      by simp [fill, old.pkts], by simp [fill, old.bcount, Account.weigh],
      old.deficit, old.turn⟩
  have number : (filled.drr b).pkts = (s.account b).queue.length + 1 := by
    have here := (books b).pkts
    rw [Function.update_self] at here
    simpa using here
  have bytes := tally_arrive Packet.size sound b p
  have count := tally_arrive (fun _ => 1) sound b p
  have bytecnt : filled.bytecnt =
      tally (Account.weigh Packet.size) (arrive b p s) := by
    change d.bytecnt + p.size = _
    rw [represents.bytecnt, bytes, Nat.cast_add]
  have pktcnt : filled.pktcnt =
      tally (Account.weigh fun _ => 1) (arrive b p s) := by
    change d.pktcnt + 1 = _
    rw [represents.pktcnt, count, Nat.cast_add, Nat.cast_one]
  rw [unfolded, number]
  by_cases empty : (s.account b).queue = []
  · have fresh : b ∉ s.ring := fun member =>
      (sound.good b member).packets empty
    have circular : Circular filled.links s.ring := by
      rw [pointers]
      exact represents.circular
    rcases activate_spec circular represents.curr sound.nodup fresh with
      ⟨links', activated, linked⟩
    rw [if_pos (by simp [empty]), activated]
    refine ⟨_, rfl, ?_⟩
    rw [arrive, if_pos empty] at bytecnt pktcnt ⊢
    refine ⟨?_, rfl, ?_, bytecnt, pktcnt, ?_⟩
    · exact (@links_put (fun q => { q with deficitCounter := 0 })
        (fun _ => ⟨rfl, rfl⟩) b (filled.relinked links' _)).symm ▸ linked
    · have again := @books_put _ _
        (books_relinked books links' (s.ring ++ [b]).head?) b
        (fun q => { q with deficitCounter := 0 })
        ⟨[p], 0, (s.account b).turn⟩
      rw [Function.update_idem] at again
      apply again
      have here := books b
      rw [Function.update_self, empty] at here
      exact ⟨here.packets, here.pkts, here.bcount, rfl, here.turn⟩
    · change d.flwcnt + 1 = _
      simp [represents.flwcnt]
  · have several : ¬ ((s.account b).queue.length : Int) + 1 = 1 := by
      have nonempty := List.length_pos_iff.mpr empty
      omega
    rw [if_neg several]
    refine ⟨filled, rfl, ?_⟩
    rw [arrive, if_neg empty] at bytecnt pktcnt ⊢
    exact ⟨pointers.symm ▸ represents.circular, represents.curr, books,
      bytecnt, pktcnt, represents.flwcnt⟩

/-- A bucket with one packet less, and the counters of the queue. -/
structure Taken (d : DRR) (s : Robin Nat Packet) (b : Nat) (p : Packet)
    (a : Account Packet) (after : DRR) : Prop where
  member : b ∈ s.ring
  packets : (s.account b).queue = p :: a.queue
  links : after.links = d.links
  curr : after.curr = d.curr
  books : ∀ c, (after.drr c).Books (Function.update s.account b a c)
  bytecnt : after.bytecnt = d.bytecnt - p.size
  pktcnt : after.pktcnt = d.pktcnt - 1
  flwcnt : after.flwcnt = d.flwcnt

/-- A bucket that has more packets stays where it is. -/
theorem stays
    (represents : d.Represents s) (nodup : s.ring.Nodup) {b : Nat}
    {p : Packet} {a : Account Packet} {after : DRR}
    (taken : Taken d s b p a after) :
    after.Represents ⟨s.ring, Function.update s.account b a⟩ where
  circular := taken.links.symm ▸ represents.circular
  curr := taken.curr.trans represents.curr
  books := taken.books
  bytecnt := by
    have bytes :=
      tally_write (Account.weigh Packet.size) nodup taken.member a
    simp only [Account.weigh, taken.packets, List.map_cons, List.sum_cons]
      at bytes
    rw [taken.bytecnt, represents.bytecnt]
    omega
  pktcnt := by
    have count :=
      tally_write (Account.weigh fun _ => 1) nodup taken.member a
    simp only [Account.weigh, taken.packets, List.map_cons, List.sum_cons]
      at count
    rw [taken.pktcnt, represents.pktcnt]
    omega
  flwcnt := taken.flwcnt.trans represents.flwcnt

/--
A bucket without packets leaves the ring; `flwcnt` is decremented before or
after.
-/
theorem goes
    (represents : d.Represents s) (nodup : s.ring.Nodup) {b : Nat}
    {p : Packet} {a : Account Packet} {after : DRR}
    (taken : Taken d s b p a after) (empty : a.queue = []) (flwcnt : Int) :
    ∃ links',
      { after with flwcnt }.idle b =
        some ({ after with flwcnt }.relinked links'
          (s.ring.erase b).head?) ∧
      { after.relinked links' (s.ring.erase b).head? with
        flwcnt := after.flwcnt - 1 }.Represents
          ⟨s.ring.erase b, Function.update s.account b a⟩ := by
  have circular : Circular { after with flwcnt }.links s.ring := by
    have same : { after with flwcnt }.links = d.links := taken.links
    rw [same]
    exact represents.circular
  obtain ⟨links', idled, linked⟩ :=
    idle_spec circular (taken.curr.trans represents.curr) nodup taken.member
  refine ⟨links', idled, linked, rfl,
    books_relinked taken.books links' (s.ring.erase b).head?, ?_, ?_, ?_⟩
  · have bytes :=
      tally_leave (Account.weigh Packet.size) nodup taken.member a
    simp only [Account.weigh, taken.packets, List.map_cons, List.sum_cons,
      empty, List.map_nil, List.sum_nil] at bytes
    change after.bytecnt = _
    rw [taken.bytecnt, represents.bytecnt]
    omega
  · have count :=
      tally_leave (Account.weigh fun _ => 1) nodup taken.member a
    simp only [Account.weigh, taken.packets, List.map_cons, List.sum_cons,
      empty, List.map_nil, List.sum_nil] at count
    change after.pktcnt = _
    rw [taken.pktcnt, represents.pktcnt]
    omega
  · have length := List.length_erase_of_mem taken.member
    have nonempty := List.length_pos_of_mem taken.member
    change after.flwcnt - 1 = ((s.ring.erase b).length : Int)
    rw [taken.flwcnt, represents.flwcnt, length]
    omega

/-- The oldest packet of a bucket is dropped. -/
theorem dropFrom
    (represents : d.Represents s) (nodup : s.ring.Nodup) {b : Nat}
    (member : b ∈ s.ring) {p : Packet} {t : Robin Nat Packet}
    (discard : Discard s b p t) :
    ∃ next, d.dropFrom b = some (p, next) ∧ next.Represents t := by
  have old := represents.books b
  obtain ⟨rest, packets⟩ : ∃ rest, (s.account b).queue = p :: rest := by
    cases discard with
    | last queue => exact ⟨_, queue⟩
    | more queue => exact ⟨_, queue⟩
  rcases PacketQueue.deque_cons (old.packets.trans packets) with
    ⟨queue, dequeued, left⟩
  let take : PacketDRR → PacketDRR := fun q =>
    { q with queue, bcount := q.bcount - p.size, pkts := q.pkts - 1 }
  let after : DRR :=
    { d.put b take with
      bytecnt := d.bytecnt - p.size
      pktcnt := d.pktcnt - 1 }
  have unfolded : d.dropFrom b =
      if (after.drr b).pkts = 0 then
        (after.idle b).map fun d => (p, { d with flwcnt := d.flwcnt - 1 })
      else
        some (p, after) := by
    rw [DRR.dropFrom, dequeued]
    rfl
  have taken : Taken d s b p
      ⟨rest, (s.account b).deficit, (s.account b).turn⟩ after :=
    ⟨member, packets, @links_put take (fun _ => ⟨rfl, rfl⟩) b d, rfl,
      @books_put d s.account represents.books b take _
        ⟨left, by simp [take, old.pkts, packets],
          by simp [take, old.bcount, Account.weigh, packets],
          old.deficit, old.turn⟩,
      rfl, rfl, rfl⟩
  have number : (after.drr b).pkts = rest.length := by
    have here := (taken.books b).pkts
    rwa [Function.update_self] at here
  rw [unfolded, number]
  cases discard with
  | last single =>
      obtain rfl : rest = [] := by
        rw [packets] at single
        exact (List.cons.inj single).2
      rcases represents.goes nodup taken rfl after.flwcnt with
        ⟨links', idled, gone⟩
      rw [if_pos (by simp), idled]
      exact ⟨_, rfl, gone⟩
  | @more q rest' several =>
      obtain rfl : rest = q :: rest' := by
        rw [packets] at several
        exact (List.cons.inj several).2
      rw [if_neg (by simp; omega)]
      exact ⟨after, rfl, represents.stays nodup taken⟩

/-- The bucket in front sends its first packet. -/
theorem send
    (represents : d.Represents s) (nodup : s.ring.Nodup) {b : Nat}
    (member : b ∈ s.ring) {p : Packet} {rest : List Packet}
    (packets : (s.account b).queue = p :: rest) :
    ∃ next, d.send b = some (p, next) ∧
      next.Represents (match rest with
        | [] => ⟨s.ring.erase b, Function.update s.account b ⟨[], 0, false⟩⟩
        | q :: rest => ⟨s.ring, Function.update s.account b
            ⟨q :: rest, (s.account b).deficit - p.size,
              (s.account b).turn⟩⟩) := by
  have old := represents.books b
  rcases PacketQueue.deque_cons (old.packets.trans packets) with
    ⟨queue, dequeued, left⟩
  let take : PacketDRR → PacketDRR := fun q =>
    { q with
      queue
      deficitCounter := q.deficitCounter - p.size
      bcount := q.bcount - p.size
      pkts := q.pkts - 1 }
  let close : PacketDRR → PacketDRR := fun q =>
    { q with turn := false, deficitCounter := 0 }
  let after : DRR :=
    { d.put b take with
      bytecnt := d.bytecnt - p.size
      pktcnt := d.pktcnt - 1 }
  have unfolded : d.send b =
      if (after.drr b).pkts = 0 then
        ({ after.put b close with flwcnt := after.flwcnt - 1 }.idle b).map
          fun d => (p, d)
      else
        some (p, after) := by
    rw [DRR.send, dequeued]
    rfl
  have taken : Taken d s b p
      ⟨rest, (s.account b).deficit - p.size, (s.account b).turn⟩ after :=
    ⟨member, packets, @links_put take (fun _ => ⟨rfl, rfl⟩) b d, rfl,
      @books_put d s.account represents.books b take _
        ⟨left, by simp [take, old.pkts, packets],
          by simp [take, old.bcount, Account.weigh, packets],
          by simp [take, old.deficit], old.turn⟩,
      rfl, rfl, rfl⟩
  have number : (after.drr b).pkts = rest.length := by
    have here := (taken.books b).pkts
    rwa [Function.update_self] at here
  rw [unfolded, number]
  cases rest with
  | nil =>
      have closed : Taken d s b p ⟨[], 0, false⟩ (after.put b close) := by
        refine ⟨member, packets, ?_, rfl, ?_, rfl, rfl, rfl⟩
        · rw [@links_put close (fun _ => ⟨rfl, rfl⟩) b after]
          exact taken.links
        · have books := @books_put after _ taken.books b close ⟨[], 0, false⟩
          rw [Function.update_idem] at books
          have here := taken.books b
          rw [Function.update_self] at here
          exact books ⟨here.packets, here.pkts, here.bcount, rfl, rfl⟩
      rcases represents.goes nodup closed rfl (after.flwcnt - 1) with
        ⟨links', idled, gone⟩
      rw [if_pos (by simp), idled]
      exact ⟨_, rfl, gone⟩
  | cons q rest =>
      rw [if_neg (by simp; omega)]
      exact ⟨after, rfl, represents.stays nodup taken⟩

/-- `getMaxflow` finds one of the longest buckets. -/
theorem getMaxflow
    (represents : d.Represents s) (packets : s.ring ≠ []) :
    ∃ f ∈ s.ring, d.getMaxflow = some f ∧ ∀ g ∈ s.ring,
      (s.account g).weigh Packet.size ≤ (s.account f).weigh Packet.size := by
  rcases List.exists_cons_of_ne_nil packets with ⟨head, rest, ring⟩
  have path : Path d.links head rest head := by
    have circular := represents.circular
    rwa [ring] at circular
  rcases getMaxflowFrom_path path head with ⟨f, origin, found, _, longest⟩
  have rounds : d.flwcnt.toNat = rest.length + 1 := by
    rw [represents.flwcnt, ring]
    rfl
  have curr : d.curr = some head := by
    rw [represents.curr, ring]
    rfl
  rw [ring]
  refine ⟨f, ?_, ?_, ?_⟩
  · rcases origin with same | member
    · exact same ▸ List.mem_cons_self
    · exact member
  · simp only [DRR.getMaxflow, curr, rounds]
    exact found
  · intro g member
    have bound := longest g member
    rw [(represents.books g).bcount, (represents.books f).bcount] at bound
    exact_mod_cast bound

/-- The turn of the bucket in front begins or goes on. -/
theorem grant
    (represents : d.Represents s) (nodup : s.ring.Nodup) {b : Nat}
    (member : b ∈ s.ring) (quantum : Int) :
    (if (d.drr b).turn then
        d
      else
        d.put b (PacketDRR.grant quantum)).Represents
      ⟨s.ring, Function.update s.account b
        ⟨(s.account b).queue, (s.account b).granted quantum, true⟩⟩ := by
  have old := represents.books b
  have same : ∀ weight : Packet → Nat,
      tally (Account.weigh weight) ⟨s.ring, Function.update s.account b
        ⟨(s.account b).queue, (s.account b).granted quantum, true⟩⟩ =
          tally (Account.weigh weight) s := by
    intro weight
    have written := tally_write (Account.weigh weight) nodup member
      ⟨(s.account b).queue, (s.account b).granted quantum, true⟩
    simp only [Account.weigh] at written
    exact Nat.add_right_cancel written
  have books : ∀ change : PacketDRR → PacketDRR,
      (change (d.drr b)).Books
        ⟨(s.account b).queue, (s.account b).granted quantum, true⟩ →
      ∀ c, ((d.put b change).drr c).Books (Function.update s.account b
        ⟨(s.account b).queue, (s.account b).granted quantum, true⟩ c) :=
    fun change changed => books_put represents.books changed
  split
  · next turn =>
      rw [old.turn] at turn
      have unchanged : Function.update s.account b
          ⟨(s.account b).queue, (s.account b).granted quantum, true⟩ =
            s.account := by
        rw [Account.granted, if_pos turn, ← turn]
        exact Function.update_eq_self b s.account
      rw [unchanged]
      exact represents
  · next turn =>
      rw [old.turn] at turn
      refine ⟨?_, represents.curr, books _ ?_, ?_, ?_, represents.flwcnt⟩
      · have pointers := @links_put (PacketDRR.grant quantum)
          (fun _ => ⟨rfl, rfl⟩) b d
        rw [pointers]
        exact represents.circular
      · refine ⟨old.packets, old.pkts, old.bcount, ?_, rfl⟩
        rw [Account.granted, if_neg turn]
        exact congrArg (· + quantum) old.deficit
      · rw [same]
        exact represents.bytecnt
      · rw [same]
        exact represents.pktcnt

/-- The turn of the bucket in front is over. -/
theorem pass
    (represents : d.Represents s) (nodup : s.ring.Nodup) {b : Nat}
    {others : List Nat} (ring : s.ring = b :: others) :
    { d.put b fun q => { q with turn := false } with
      curr := ((d.put b fun q => { q with turn := false }).drr b).next
      }.Represents
        ⟨others ++ [b], Function.update s.account b
          ⟨(s.account b).queue, (s.account b).deficit, false⟩⟩ := by
  let close : PacketDRR → PacketDRR := fun q => { q with turn := false }
  have pointers : (d.put b close).links = d.links :=
    @links_put close (fun _ => ⟨rfl, rfl⟩) b d
  have circular : Circular d.links (b :: others) :=
    ring ▸ represents.circular
  have member : b ∈ s.ring := ring ▸ List.mem_cons_self
  have same : ∀ weight : Packet → Nat,
      tally (Account.weigh weight)
        ⟨others ++ [b], Function.update s.account b
          ⟨(s.account b).queue, (s.account b).deficit, false⟩⟩ =
        tally (Account.weigh weight) s := by
    intro weight
    have moved : (others ++ [b]).Perm s.ring := by
      rw [ring]
      exact List.perm_append_singleton b others
    have turned := @tally_perm _ _
      ⟨s.ring, Function.update s.account b
        ⟨(s.account b).queue, (s.account b).deficit, false⟩⟩
      (Account.weigh weight) _ moved
    have written := tally_write (Account.weigh weight) nodup member
      ⟨(s.account b).queue, (s.account b).deficit, false⟩
    simp only [Account.weigh] at written
    exact turned.trans (Nat.add_right_cancel written)
  have old := represents.books b
  refine ⟨?_, ?_, ?_, ?_, ?_, ?_⟩
  · change Circular (d.put b close).links (others ++ [b])
    rw [pointers]
    exact @Circular.rotate _ _ [b] others circular
  · have next : ((d.put b close).drr b).next = d.links.next b :=
      congrFun (congrArg Links.next pointers) b
    change ((d.put b close).drr b).next = (others ++ [b]).head?
    rw [next]
    cases others with
    | nil => exact circular.1
    | cons c others => exact circular.1.1
  · exact @books_put d s.account represents.books b close _
      ⟨old.packets, old.pkts, old.bcount, old.deficit, rfl⟩
  · rw [same]
    exact represents.bytecnt
  · rw [same]
    exact represents.pktcnt
  · change d.flwcnt = _
    rw [represents.flwcnt, ring]
    simp

/-- The bucket whose turn it is sends a packet or passes. -/
theorem turn
    (represents : d.Represents s) (nodup : s.ring.Nodup)
    {sent : Option (Nat × Packet)} {t : Robin Nat Packet}
    (visit : Visit Packet.size quantum s sent t) :
    ∃ next, d.turn quantum = some (sent.map Prod.snd, next) ∧
      next.Represents t := by
  obtain ⟨b, others, ring, p, rest, packets⟩ : ∃ b others,
      s.ring = b :: others ∧ ∃ p rest, (s.account b).queue = p :: rest := by
    cases visit with
    | last ring queue enough => exact ⟨_, _, ring, _, _, queue⟩
    | more ring queue enough => exact ⟨_, _, ring, _, _, queue⟩
    | passed ring queue short => exact ⟨_, _, ring, _, _, queue⟩
  have member : b ∈ s.ring := ring ▸ List.mem_cons_self
  have granted := represents.grant nodup member quantum
  have curr : d.curr = some b := by
    rw [represents.curr, ring]
    rfl
  simp only [DRR.turn, curr]
  generalize (if (d.drr b).turn then
      d
    else
      d.put b (PacketDRR.grant quantum)) = begun at granted
  have here := granted.books b
  simp only [Function.update_self] at here
  have first : (begun.drr b).queue.lookup 0 = some p := by
    rw [PacketQueue.lookup, here.packets, packets]
    rfl
  have sends : ∃ next, begun.send b = some (p, next) ∧ _ :=
    granted.send nodup member (by
      simp only [Function.update_self]
      exact packets)
  simp only [first, here.deficit]
  cases visit with
  | @last b' others' p' ring' queue enough =>
      rw [ring] at ring'
      cases ring'
      rw [packets] at queue
      cases queue
      rcases sends with ⟨next, sent, after⟩
      rw [if_pos enough, sent]
      refine ⟨next, rfl, ?_⟩
      simpa only [ring, List.erase_cons_head, Function.update_idem] using
        after
  | @more b' others' p' q rest' ring' queue enough =>
      rw [ring] at ring'
      cases ring'
      rw [packets] at queue
      cases queue
      rcases sends with ⟨next, sent, after⟩
      rw [if_pos enough, sent]
      refine ⟨next, rfl, ?_⟩
      simpa only [Function.update_self, Function.update_idem] using after
  | @passed b' others' p' rest' ring' queue short =>
      rw [ring] at ring'
      cases ring'
      rw [packets] at queue
      cases queue
      rw [if_neg (not_le.mpr short)]
      refine ⟨_, rfl, ?_⟩
      have passed := granted.pass nodup ring
      simpa only [Function.update_self, Function.update_idem, packets]
        using passed

end Represents

end DRR

end NetworkingLab.Simulator
