import NetworkingLab.Simulator.RouteLogic

/-!
# The classifier of a node

A node hands a packet to the object that its classifier has for the packet's
destination: a hash table from destinations to slots, and an array of slots.
Destinations behind the same link share a slot, and the array is enlarged when
no slot is free.  Together they are a map from destinations to objects
(`find_doInstall`).  There is no default slot.
-/

namespace NetworkingLab.Simulator

/-- `DestHashClassifier`: `slot_`, `maxslot_`, `nsize_` and the hash table. -/
structure Classifier (Target : Type*) where
  slot : List (Option Target)
  maxslot : Int
  nsize : Nat
  ht : Nat → Option Nat

namespace Classifier

variable {Target : Type*}

/-- `Classifier()`. -/
def start : Classifier Target :=
  ⟨[], -1, 0, fun _ => none⟩

/-- `set_table_size`. -/
def setTableSize (nn : Nat) (classifier : Classifier Target) :
    Classifier Target :=
  { classifier with nsize := nn }

/-- `nslot_` after `alloc`. -/
def room (slot : Nat) (classifier : Classifier Target) : Nat :=
  if empty : classifier.slot.length = 0 then
    if unsized : classifier.nsize = 0 then
      RouteLogic.widen slot 32 (by decide)
    else
      RouteLogic.widen slot classifier.nsize (Nat.pos_of_ne_zero unsized)
  else
    RouteLogic.widen slot classifier.slot.length
      (Nat.pos_of_ne_zero empty)

/-- `alloc`. -/
def alloc (slot : Nat) (classifier : Classifier Target) :
    Classifier Target :=
  { classifier with
    slot := classifier.slot ++
      List.replicate (classifier.room slot - classifier.slot.length)
        none }

/-- `getnxt`: a slot that is free or has this object already. -/
def getnxt [DecidableEq Target] (target : Target)
    (classifier : Classifier Target) : Nat × Classifier Target :=
  match classifier.slot.findIdx?
      (fun held => held = none ∨ held = some target) with
  | some i => (i, classifier)
  | none =>
      (classifier.slot.length, classifier.alloc classifier.slot.length)

/-- `install`. -/
def install (slot : Nat) (target : Target)
    (classifier : Classifier Target) : Classifier Target :=
  let roomy :=
    if slot < classifier.slot.length then
      classifier
    else
      classifier.alloc slot
  { roomy with
    slot := roomy.slot.set slot (some target)
    maxslot := max roomy.maxslot slot }

/-- `do_install`. -/
def doInstall [DecidableEq Target] (dst : Nat) (target : Target)
    (classifier : Classifier Target) : Classifier Target :=
  let next := classifier.getnxt target
  let installed := next.2.install next.1 target
  { installed with ht := Function.update installed.ht dst (some next.1) }

/-- What a slot holds; slots beyond the array hold nothing. -/
def held (classifier : Classifier Target) (slot : Nat) : Option Target :=
  classifier.slot.getD slot none

/-- `classify`. -/
def classify (classifier : Classifier Target) (dst : Nat) : Option Nat :=
  match classifier.ht dst with
  | none => none
  | some slot => if slot ≤ classifier.maxslot then some slot else none

/-- `find`, for a packet to `dst`. -/
def find (classifier : Classifier Target) (dst : Nat) : Option Target :=
  match classifier.classify dst with
  | none => none
  | some cl => classifier.held cl

/-- The slot of a destination is in use. -/
def Wired (classifier : Classifier Target) : Prop :=
  ∀ dst cl, classifier.ht dst = some cl →
    cl ≤ classifier.maxslot ∧ classifier.held cl ≠ none

theorem Wired.start : (start : Classifier Target).Wired :=
  nofun

variable {classifier : Classifier Target}

theorem lt_room (slot : Nat) : slot < classifier.room slot := by
  rw [room]
  split
  · split
    · exact RouteLogic.lt_widen _ _ _
    · exact RouteLogic.lt_widen _ _ _
  · exact RouteLogic.lt_widen _ _ _

/-- New slots are free. -/
@[simp]
theorem held_alloc (slot k : Nat) :
    (classifier.alloc slot).held k = classifier.held k := by
  simp only [held, alloc, List.getD_eq_getElem?_getD, List.getElem?_append]
  split
  · rfl
  · next beyond =>
      rw [List.getElem?_eq_none (Nat.not_lt.mp beyond),
        List.getElem?_replicate]
      split <;> rfl

theorem lt_length_alloc (slot : Nat) :
    slot < (classifier.alloc slot).slot.length := by
  have enough : slot < classifier.room slot := lt_room slot
  simp only [alloc, List.length_append, List.length_replicate]
  omega

/-- Nothing is moved, and the slot is free or has the object already. -/
theorem getnxt_spec [DecidableEq Target] (target : Target) :
    let next := classifier.getnxt target
    next.2.ht = classifier.ht ∧ next.2.maxslot = classifier.maxslot ∧
      next.2.held = classifier.held ∧
      (classifier.held next.1 = none ∨
        classifier.held next.1 = some target) := by
  rw [getnxt]
  split
  · next i found =>
      refine ⟨rfl, rfl, rfl, ?_⟩
      obtain ⟨inside, free, _⟩ := List.findIdx?_eq_some_iff_getElem.mp found
      have here : classifier.held i = classifier.slot[i] := by
        simp [held, List.getD_eq_getElem?_getD, inside]
      rw [here]
      exact of_decide_eq_true free
  · refine ⟨rfl, rfl, funext fun k => held_alloc _ k, Or.inl ?_⟩
    simp [held, List.getD_eq_getElem?_getD]

theorem install_spec (slot : Nat) (target : Target) :
    let after := classifier.install slot target
    after.ht = classifier.ht ∧
      after.maxslot = max classifier.maxslot slot ∧
      ∀ k, after.held k =
        if k = slot then some target else classifier.held k := by
  have written : ∀ roomy : Classifier Target,
      slot < roomy.slot.length → ∀ k,
        (roomy.slot.set slot (some target)).getD k none =
          if k = slot then some target else roomy.held k := by
    intro roomy inside k
    simp only [held, List.getD_eq_getElem?_getD, List.getElem?_set]
    by_cases same : slot = k
    · subst same
      simp [inside]
    · simp [same, Ne.symm same]
  rw [install]
  split
  · next inside => exact ⟨rfl, rfl, written classifier inside⟩
  · refine ⟨rfl, rfl, fun k => ?_⟩
    have new := written (classifier.alloc slot) (lt_length_alloc slot) k
    rw [held_alloc] at new
    exact new

theorem Wired.find_eq
    (wired : classifier.Wired) {dst cl : Nat}
    (given : classifier.ht dst = some cl) :
    classifier.find dst = classifier.held cl := by
  simp only [find, classify, given, (wired dst cl given).1, if_true]

/-- One destination is sent to the object; the others stay. -/
theorem find_doInstall [DecidableEq Target]
    (wired : classifier.Wired) (dst : Nat) (target : Target) :
    (classifier.doInstall dst target).Wired ∧
      ∀ d, (classifier.doInstall dst target).find d =
        if d = dst then some target else classifier.find d := by
  obtain ⟨sameHash, sameMax, sameSlots, free⟩ :=
    classifier.getnxt_spec target
  rw [doInstall]
  generalize classifier.getnxt target = next
    at sameHash sameMax sameSlots free
  obtain ⟨hash, highest, slots⟩ := next.2.install_spec next.1 target
  generalize next.2.install next.1 target = installed at hash highest slots
  rw [sameHash] at hash
  rw [sameMax] at highest
  rw [sameSlots] at slots
  -- a slot in use is overwritten with what it holds, or not at all
  have used : ∀ d cl, classifier.ht d = some cl →
      installed.held cl = classifier.held cl := by
    intro d cl given
    rw [slots]
    split
    · next same =>
        rw [same]
        rcases free with unset | before
        · rw [same] at given
          exact absurd unset (wired d _ given).2
        · exact before.symm
    · rfl
  have wired' : Wired { installed with
      ht := Function.update installed.ht dst (some next.1) } := by
    intro d cl given
    simp only [hash, Function.update_apply] at given
    change (cl : Int) ≤ installed.maxslot ∧ installed.held cl ≠ none
    rw [highest]
    split at given
    · cases given
      rw [slots, if_pos rfl]
      exact ⟨le_max_right _ _, Option.some_ne_none target⟩
    · rw [used d cl given]
      exact ⟨le_max_of_le_left (wired d cl given).1, (wired d cl given).2⟩
  refine ⟨wired', fun d => ?_⟩
  by_cases same : d = dst
  · have here : Function.update installed.ht dst (some next.1) d =
        some next.1 := by
      rw [same]
      exact Function.update_self _ _ _
    rw [if_pos same, wired'.find_eq here]
    change installed.held next.1 = some target
    rw [slots, if_pos rfl]
  · rw [if_neg same]
    have kept : Function.update installed.ht dst (some next.1) d =
        classifier.ht d := by
      rw [Function.update_of_ne same, hash]
    cases given : classifier.ht d with
    | none =>
        rw [given] at kept
        simp only [find, classify, kept, given]
    | some cl =>
        rw [given] at kept
        rw [wired'.find_eq kept, wired.find_eq given]
        exact used d cl given

end Classifier

end NetworkingLab.Simulator
