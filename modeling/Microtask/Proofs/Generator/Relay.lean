import Microtask.Proofs.Generator.InStep
import Microtask.Proofs.Guise.Machine

/-!
# Relays

A relay is code of the host that stands in for a frame inside an async generator
(`Relay.Does`). It resumes the frame with every completion that it gets, and stops when the
frame stops, with the same outcome. Only where the frame yields a promise the relay awaits
it, and then yields the result itself or has the frame go on with the exception.

With a relay in place of the frame an engine is the same but for the record of the generator
inside, and for those that wait for a promise that the frame has yielded
(`Relay.guise`). On the control stack the steps of the frame are on top of those of the
relay.
-/

namespace Microtask

variable {H : Type}

/-! ## What a relay does -/

/-- Whether a frame has stopped to yield a promise. -/
def Outcome.yieldsPromise : Outcome → Bool
  | .yielded (.promise _) => true
  | _ => false

/-- What is awaited instead of being yielded. -/
def Outcome.awaited : Outcome → Outcome
  | .yielded (.promise q) => .awaiting (.promise q)
  | o => o

/-- The code of a relay, in each of its states. -/
structure Relay (H : Type) where
  /-- It is about to resume the frame. -/
  ready : Frame H → H
  /-- It waits for a promise that the frame has yielded. -/
  waiting : Frame H → H

namespace Relay

variable (R : Relay H)

def code (waits : Bool) (f : Frame H) : H := if waits then R.waiting f else R.ready f

/-- **What a relay does** when it gets the floor. -/
inductive Does : Prompt H → Move H → Prop where
  | forward {f : Frame H} {c : Completion} :
      Does (.resumed (R.ready f) c) (.perform (.resumeFrame f c))
  | stop {o : Outcome} {f : Frame H} :
      Does (.answered (.stopped o f)) (.finishFrame o.awaited (R.code o.yieldsPromise f))
  | yield {f : Frame H} {x : Value} :
      Does (.resumed (R.waiting f) (.normal x)) (.finishFrame (.yielded x) (R.ready f))
  | throw {f : Frame H} {v : Value} :
      Does (.resumed (R.waiting f) (.throwing v)) (.perform (.resumeFrame f (.throwing v)))

end Relay

/-! ## The control stack with a relay -/

section Stacks

variable (g : GeneratorRef)

mutual

def Caller.relayed : Caller H → Caller H
  | .host h => .host h.relayed
  | .reaction capability d => .reaction capability d.relayed
  | .executor p h => .executor p h.relayed
  | .finalizer v kind k => .finalizer v kind k.relayed
  | .discarding k => .discarding k.relayed

/-- A step of the frame is on top of one of the relay. -/
def Stepper.relayed : Stepper H → Stepper H
  | .host h => .host h.relayed
  | .generator g' purpose =>
    if g' = g then .host (.frame (.generator g' purpose.relayed)) else .generator g' purpose.relayed

def Purpose.relayed : Purpose H → Purpose H
  | .outcome h => .outcome h.relayed
  | .iterator h => .iterator h.relayed
  | .serving a r reply k => .serving a r reply k.relayed
  | .body p reply k => .body p reply k.relayed

def Activation.relayed : Activation H → Activation H
  | .main => .main
  | .function k => .function k.relayed
  | .frame s => .frame s.relayed
  | .job id d => .job id d.relayed

def Drain.relayed : Drain H → Drain H
  | .loop limit executed h => .loop limit executed h.relayed

end

end Stacks

theorem Stepper.relayed_self (g : GeneratorRef) (purpose : Purpose H) :
    Stepper.relayed g (.generator g purpose) =
      .host (.frame (.generator g (purpose.relayed g))) := if_pos rfl

/-- A relay has the floor only where no step of the frame is. -/
theorem Stepper.relayed_ne (g : GeneratorRef) (s : Stepper H) (purpose : Purpose H) :
    s.relayed g ≠ .generator g purpose := by
  cases s with
  | host h => exact nofun
  | generator g' purpose' =>
    rw [Stepper.relayed]
    split
    · exact nofun
    · next hne => exact fun heq => hne (Stepper.generator.inj heq).1

/-! ## The record of the generator inside -/

namespace Store

variable {α : Type}

/-- Change a cell that has been written. -/
def adjust (s : Store α) (i : Nat) (f : α → α) : Store α := ⟨s.cells.modify i f⟩

@[simp] theorem size_adjust (s : Store α) (i : Nat) (f : α → α) : (s.adjust i f).size = s.size := by
  simp [adjust, size]

theorem adjust_push_of_lt {s : Store α} {i : Nat} (hi : i < s.size) (f : α → α) (a : α) :
    (s.push a).adjust i f = (s.adjust i f).push a := by
  have hi' : i < s.cells.size := hi
  simp only [adjust, push, mk.injEq]
  refine Array.ext_getElem? fun j => ?_
  rw [Array.getElem?_modify, Array.getElem?_push, Array.getElem?_push, Array.getElem?_modify,
    Array.size_modify]
  by_cases hj : j = s.cells.size
  · subst hj
    simp [hi'.ne]
  · simp [hj]

theorem adjust_push (s : Store α) (f : α → α) (a : α) :
    (s.push a).adjust s.size f = s.push (f a) := by
  simp only [adjust, push, size, mk.injEq]
  refine Array.ext_getElem? fun j => ?_
  rw [Array.getElem?_modify, Array.getElem?_push, Array.getElem?_push]
  by_cases hj : j = s.cells.size
  · simp [hj]
  · simp [hj, Ne.symm hj]

variable [Inhabited α]

theorem get_adjust (s : Store α) (i j : Nat) {f : α → α} (hf : f default = default) :
    (s.adjust i f).get j = if j = i then f (s.get j) else s.get j := by
  simp only [get, adjust, Array.getElem?_modify]
  by_cases hj : j = i
  · subst hj
    cases h : s.cells[j]? <;> simp [hf]
  · simp [hj, Ne.symm hj]

/-- A change that changes nothing. -/
theorem modify_eq_self {s : Store α} {i : Nat} {change : α → α} (hi : i < s.size)
    (h : change (s.get i) = s.get i) : s.modify i change = s := by
  refine ext_get ?_ fun k => ?_
  · rw [modify, size_set]
    exact max_eq_left hi
  · rw [get_modify]
    split
    · next hk => rw [hk, h]
    · rfl

variable {f f' : α → α} (hf : f default = default) (hf' : f' default = default)
include hf

theorem adjust_modify_of_ne (s : Store α) {i j : Nat} (hij : i ≠ j) (change : α → α) :
    (s.modify j change).adjust i f = (s.adjust i f).modify j change := by
  refine ext_get (by simp [modify, size_set]) fun k => ?_
  rw [get_adjust _ _ _ hf, get_modify, get_modify, get_adjust _ _ _ hf, get_adjust _ _ _ hf]
  by_cases hk : k = i
  · simp [hk, hij]
  · simp [hk, Ne.symm hij]

include hf'

/-- A cell that is adjusted differently before and after a change. -/
theorem adjust_modify_self (s : Store α) {i : Nat} {change change' : α → α}
    (h : f' (change (s.get i)) = change' (f (s.get i))) :
    (s.modify i change).adjust i f' = (s.adjust i f).modify i change' := by
  refine ext_get (by simp [modify, size_set]) fun k => ?_
  rw [get_adjust _ _ _ hf', get_modify, get_modify, get_adjust _ _ _ hf, get_adjust _ _ _ hf]
  by_cases hk : k = i
  · simp [hk, h]
  · simp [hk]

end Store

/-- The record of the generator with a relay in place of the frame. -/
def Generator.relayed (R : Relay H) (waits : Bool) (r : Generator H) : Generator H :=
  { r with frame := r.frame.map fun f => .host (R.code waits f) }

theorem Generator.relayed_of_none {R : Relay H} {waits : Bool} {r : Generator H}
    (h : r.frame = none) : r.relayed R waits = r := by
  rw [Generator.relayed, h]
  cases r
  cases h
  rfl

namespace Relay

variable (R : Relay H) (a : AsyncGeneratorRef) (g : GeneratorRef)

/-- The records of generators with a relay in place of the frame of one, if that has been
made. -/
def records (g : GeneratorRef) : Option Bool → Store (Generator H) → Store (Generator H)
  | none, s => s
  | some waits, s => s.adjust g.index (Generator.relayed R waits)

variable {g}

theorem get_records_of_ne (made : Option Bool) (s : Store (Generator H)) {i : Nat}
    (hi : i ≠ g.index) : (R.records g made s).get i = s.get i := by
  cases made with
  | none => rfl
  | some waits => exact (s.get_adjust g.index i rfl).trans (if_neg hi)

theorem records_modify_of_ne (made : Option Bool) (s : Store (Generator H)) {i : Nat}
    (hi : i ≠ g.index) (change : Generator H → Generator H) :
    R.records g made (s.modify i change) = (R.records g made s).modify i change := by
  cases made with
  | none => rfl
  | some waits => exact s.adjust_modify_of_ne rfl (Ne.symm hi) change

variable (g)

/-- **An engine with a relay** in place of the frame inside an async generator. -/
def guise (made : Option Bool) : Guise H where
  yielding b r := if b = a then .awaiting b r else .yielding b r
  generators := R.records g made
  caller := Caller.relayed g
  stepper := Stepper.relayed g
  purpose := Purpose.relayed g
  activation := Activation.relayed g
  drain := Drain.relayed g
  closes g' s := by
    by_cases hg : g'.index = g.index
    · rw [hg]
      cases made with
      | none => rfl
      | some waits => exact s.adjust_modify_self rfl rfl rfl
    · exact R.records_modify_of_ne made s hg _

variable {R a g} {made : Option Bool} {waits waits' : Bool}

theorem passes {g' : GeneratorRef} (hg : g' ≠ g) : (R.guise a g made).Passes g' where
  stepper _ := if_neg hg
  get s := R.get_records_of_ne made s fun heq => hg (GeneratorRef.index_inj.1 heq)
  modify s change := R.records_modify_of_ne made s (fun heq => hg (GeneratorRef.index_inj.1 heq)) change

theorem yields {b : AsyncGeneratorRef} (hb : b ≠ a) : (R.guise a g made).Yields b := fun _ => if_neg hb

theorem drains : (R.guise a g made).Drains where
  draining _ := rfl
  limit _ := rfl
  loop _ _ _ := rfl

theorem admits {e : Engine H} (h : ∀ waits, made = some waits → g.index < e.generators.size) :
    e.Admits (R.guise a g made) := by
  cases made with
  | none => exact ⟨rfl, fun _ => rfl⟩
  | some waits =>
    exact ⟨Store.size_adjust _ _ _, fun r => Store.adjust_push_of_lt (h waits rfl) _ r⟩

end Relay

namespace Engine

variable {R : Relay H} {a : AsyncGeneratorRef} {g : GeneratorRef} {waits waits' : Bool}
  {e : Engine H} {f : Frame H}

/-! ## Steps of the relay -/

theorem generator_relayed (e : Engine H) :
    (e.guise (R.guise a g (some waits))).generator g = (e.generator g).relayed R waits :=
  (e.generators.get_adjust g.index g.index rfl).trans (if_pos rfl)

theorem modifyGenerator_relayed {change change' : Generator H → Generator H}
    (h : (change (e.generator g)).relayed R waits' = change' ((e.generator g).relayed R waits)) :
    (e.guise (R.guise a g (some waits))).modifyGenerator g change' =
      (e.modifyGenerator g change).guise (R.guise a g (some waits')) := by
  have hrecords : (e.generators.modify g.index change).adjust g.index (Generator.relayed R waits') =
      (e.generators.adjust g.index (Generator.relayed R waits)).modify g.index change' :=
    e.generators.adjust_modify_self rfl rfl h
  simp only [modifyGenerator, guise, Relay.guise, Relay.records, hrecords]
  rfl

/-- A relay is resumed where the frame is. -/
theorem stepGenerator_relayed {c : Completion} (ht : (e.generator g).Takes c)
    (hf : (e.generator g).frame = some f) (waits waits' : Bool) (purpose : Purpose H) :
    (e.guise (R.guise a g (some waits))).stepGenerator g c purpose =
      ⟨(e.takeOut g).guise (R.guise a g (some waits')),
        .resume (.host (R.code waits f)) c (.generator g purpose)⟩ := by
  have ht' : ((e.guise (R.guise a g (some waits))).generator g).Takes c := by
    rw [generator_relayed]
    exact ht
  have hf' : ((e.guise (R.guise a g (some waits))).generator g).frame =
      some (.host (R.code waits f)) := by
    rw [generator_relayed, Generator.relayed, hf]
    rfl
  have htaken : (e.guise (R.guise a g (some waits))).takeOut g =
      (e.takeOut g).guise (R.guise a g (some waits')) := modifyGenerator_relayed rfl
  rw [stepGenerator, beginStep_of_takes ht' hf', htaken]

/-- A relay stops where the frame does. -/
theorem endStep_relayed (hnone : (e.generator g).frame = none) (f : Frame H) (o : Outcome) :
    (e.guise (R.guise a g (some waits))).endStep g (.host (R.code o.yieldsPromise f)) o.awaited =
      (e.endStep g f o).guise (R.guise a g (some o.yieldsPromise)) := by
  have hfinished : o.awaited.isFinished = o.isFinished := by
    cases o with
    | yielded v => cases v <;> rfl
    | _ => rfl
  unfold endStep
  rw [hfinished]
  split
  · refine modifyGenerator_relayed ?_
    rw [Generator.relayed_of_none hnone]
    exact Generator.relayed_of_none hnone
  · exact modifyGenerator_relayed rfl

/-- A request waits for what the frame has yielded as it waits for what the relay awaits. -/
theorem absorbOutcome_relayed (made : Option Bool) (r : Request) (o : Outcome) :
    (e.guise (R.guise a g made)).absorbOutcome a r (.ok o.awaited) =
      (e.absorbOutcome a r (.ok o)).guise (R.guise a g made) := by
  cases o with
  | yielded v =>
    cases v with
    | promise q =>
      have hcode : ∀ kind, (Code.wake (.yielding a r) kind).guise (R.guise a g made) =
          .wake (.awaiting a r) kind := fun kind => congrArg (Code.wake · kind) (if_pos rfl)
      exact await_guise e _ (.promise q) hcode
    | _ => exact settleYield_guise e _ a r _
  | awaiting v => exact await_guise e _ v fun _ => rfl
  | returned v =>
    cases v with
    | promise q => exact awaitReturn_guise e _ a r _
    | _ => exact completeWith_guise e _ a r _
  | threw reason => exact failWith_guise e _ a r reason

theorem frameStopped_relayed (hnone : (e.generator g).frame = none) (f : Frame H) (o : Outcome)
    (r : Request) (reply : Value) (k : Caller H) :
    (e.guise (R.guise a g (some waits))).frameStopped o.awaited (.host (R.code o.yieldsPromise f))
        (.generator g (.serving a r reply (k.relayed g))) =
      (e.frameStopped o f (.generator g (.serving a r reply k))).guise
        (R.guise a g (some o.yieldsPromise)) := by
  simp only [frameStopped, conclude, endStep_relayed hnone, absorbOutcome_relayed]
  rfl

/-- A relay that yields what it has waited for is as it was before that, but waits no more. -/
theorem yieldAgain_relayed (hs : (e.generator g).state = .suspendedYield)
    (hf : (e.generator g).frame = some f) (r : Request) {x : Value} (hx : ∀ q, x ≠ .promise q)
    (reply : Value) (k : Caller H) :
    ((e.takeOut g).guise (R.guise a g (some waits))).frameStopped (.yielded x) (.host (R.ready f))
        (.generator g (.serving a r reply (k.relayed g))) =
      Config.guise ⟨e.settleYield a r x, .serve a reply k⟩ (R.guise a g (some false)) := by
  have hend : ((e.takeOut g).guise (R.guise a g (some waits))).endStep g (.host (R.ready f))
      (.yielded x) = e.guise (R.guise a g (some false)) := by
    have hsame : (e.takeOut g).modifyGenerator g
        (fun r => { r with state := .suspendedYield, frame := some f }) = e := by
      have hlt : g.index < e.generators.size := by
        by_contra hle
        rw [generator, Store.get_of_size_le (Nat.le_of_not_lt hle)] at hf
        cases hf
      have hcell : ({ e.generator g with state := .suspendedYield, frame := some f } : Generator H) =
          e.generator g := by
        rw [← hs, ← hf]
      have hrecords : (e.generators.modify g.index fun r =>
          { r with state := .executing, frame := none }).modify g.index
            (fun r => { r with state := .suspendedYield, frame := some f }) = e.generators := by
        rw [Store.modify_modify]
        exact Store.modify_eq_self hlt hcell
      rw [modifyGenerator, takeOut, modifyGenerator, hrecords]
    have hstep : ((e.takeOut g).guise (R.guise a g (some waits))).modifyGenerator g
          (fun r => { r with state := .suspendedYield, frame := some (.host (R.ready f)) }) =
        ((e.takeOut g).modifyGenerator g
          (fun r => { r with state := .suspendedYield, frame := some f })).guise
            (R.guise a g (some false)) := modifyGenerator_relayed rfl
    rw [hsame] at hstep
    exact hstep
  have habsorb : e.absorbOutcome a r (.ok (.yielded x)) = e.settleYield a r x := by
    cases x with
    | promise q => exact absurd rfl (hx q)
    | _ => rfl
  have hyielded : Outcome.awaited (.yielded x) = .yielded x := by
    cases x with
    | promise q => exact absurd rfl (hx q)
    | _ => rfl
  have h := absorbOutcome_relayed (e := e) (R := R) (a := a) (g := g) (some false) r (.yielded x)
  rw [hyielded, habsorb] at h
  simp only [frameStopped, conclude, hend, h]
  rfl

end Engine

end Microtask
