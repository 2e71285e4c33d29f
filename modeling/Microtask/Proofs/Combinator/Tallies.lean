import Microtask.Proofs.Combinator.Setup

/-!
# Tallies

A combinator that collects keeps a tally. A report fills the slot of its element
(`Engine.report_counts`), and the one that leaves none outstanding decides the result by what
all slots hold (`Engine.report_last`).

`Engine.enrolls_enrolling` says what the loop of the set-up has done after some elements, and
`Engine.Enrolls.collect` what the whole set-up leaves behind.
-/

namespace Microtask

variable {H : Type}

/-! ## What is collected -/

/-- The record of a settlement. -/
def Settling.record : Settling → Value → Object
  | .fulfill, v => .settlementRecord "fulfilled" "value" v
  | .reject, v => .settlementRecord "rejected" "reason" v

namespace Collection

/-- The settlement of an element that decides the result at once. -/
def decides : Collection → Settling → Bool
  | .all, .reject | .any, .fulfill => true
  | _, _ => false

/-- How often the callback of an element may be called. -/
def usage : Collection → Settling → Usage
  | .all, .fulfill | .any, .reject => .once
  | _, _ => .repeatable

/-- What the slot of an element holds that has settled, where `Shows` tells the contents of
objects. -/
def Content (c : Collection) (Shows : Value → Object → Prop) (kind : Settling)
    (v content : Value) : Prop :=
  match c with
  | .all | .any => content = v
  | .allSettled => Shows content (kind.record v)

/-- The result is decided by what all slots hold. -/
def Announces (c : Collection) (Shows : Value → Object → Prop) (s : PromiseState)
    (contents : List Value) : Prop :=
  match c with
  | .all | .allSettled => ∃ list, s = .fulfilled list ∧ Shows list (.ofList contents)
  | .any => ∃ error list, s = .rejected error ∧ Shows list (.ofList contents) ∧
      Shows error ((Object.error "AggregateError" "All promises were rejected").set "errors" list)

variable {c : Collection} {Shows Shows' : Value → Object → Prop}

theorem usage_of_decides {kind : Settling} (h : c.decides kind = true) :
    c.usage kind = .repeatable := by
  revert h
  cases c <;> cases kind <;> decide

/-- Only with `allSettled` a callback that reports may be called repeatedly. -/
theorem eq_allSettled {kind : Settling} (hd : c.decides kind = false)
    (hu : c.usage kind = .repeatable) : c = .allSettled := by
  revert hd hu
  cases c <;> cases kind <;> decide

theorem Content.mono {kind : Settling} {v content : Value} (h : c.Content Shows kind v content)
    (hs : ∀ v x, Shows v x → Shows' v x) : c.Content Shows' kind v content := by
  cases c with
  | all | any => exact h
  | allSettled => exact hs _ _ h

theorem Announces.mono {s : PromiseState} {contents : List Value}
    (h : c.Announces Shows s contents) (hs : ∀ v x, Shows v x → Shows' v x) :
    c.Announces Shows' s contents := by
  cases c with
  | all | allSettled =>
    obtain ⟨list, hstate, hlist⟩ := h
    exact ⟨list, hstate, hs _ _ hlist⟩
  | any =>
    obtain ⟨error, list, hstate, hlist, herror⟩ := h
    exact ⟨error, list, hstate, hs _ _ hlist, hs _ _ herror⟩

theorem Announces.state_ne_pending {s : PromiseState} {contents : List Value}
    (h : c.Announces Shows s contents) : s ≠ .pending := by
  rintro rfl
  cases c with
  | all | allSettled =>
    obtain ⟨list, hstate, -⟩ := h
    cases hstate
  | any =>
    obtain ⟨error, list, hstate, -⟩ := h
    cases hstate

end Collection

/-! ## Reports -/

theorem Tally.isOpen_iff (r : Tally) (i : Nat) : r.isOpen i = true ↔ r.slots[i]? = some none := by
  rw [Tally.isOpen, beq_iff_eq]

/-- The report for an empty slot counts. -/
theorem Tally.accepts_of_isOpen {r : Tally} {i : Nat} (h : r.isOpen i = true) :
    r.accepts i = true := by
  unfold Tally.accepts
  split
  · rfl
  · rfl
  · exact h

namespace Engine

section Reports

variable {e : Engine H} {p : PromiseRef} {t : TallyRef} {i : Nat} {kind : Settling} {v : Value}

/-- The value is an object with the given content. -/
def Presents (e : Engine H) (v : Value) (x : Object) : Prop :=
  ∃ o : ObjectRef, v = .object o ∧ o.index < e.objects.size ∧ e.object o = x

theorem presents_newObject (e : Engine H) (x : Object) :
    (e.newObject x).2.Presents (e.newObject x).1 x := by
  refine ⟨⟨e.objects.size⟩, rfl, ?_, (Store.get_push ..).trans (if_pos rfl)⟩
  exact (Nat.lt_succ_self _).trans_eq (Store.size_push ..).symm

theorem Presents.newObject {x : Object} (h : e.Presents v x) (y : Object) :
    (e.newObject y).2.Presents v x := by
  obtain ⟨o, rfl, ho, hx⟩ := h
  refine ⟨o, rfl, (Nat.lt_succ_of_lt ho).trans_eq (Store.size_push ..).symm, Eq.trans ?_ hx⟩
  exact (Store.get_push ..).trans (if_neg ho.ne)

theorem Presents.of_objects {e' : Engine H} {x : Object} (h : e.Presents v x)
    (ho : e'.objects = e.objects) : e'.Presents v x := by
  obtain ⟨o, rfl, hlt, hx⟩ := h
  exact ⟨o, rfl, ho ▸ hlt, by rw [object, ho]; exact hx⟩

/-- A pending promise whose fate is open is settled at once. -/
theorem settle_pending (hr : (e.promise p).resolved = false)
    (hs : (e.promise p).state = .pending) {kind : Settling} {v : Value}
    (hv : kind = .fulfill → ∀ q, v ≠ .promise q) :
    ((e.settle p kind v).promise p).state = kind.state v ∧
      (e.settle p kind v).objects = e.objects := by
  have hlock : ((e.lock p).promise p).state = .pending :=
    (read_lock Promise.state (fun _ => rfl) e p p).trans hs
  rw [settle_of_unresolved hr hv]
  refine ⟨?_, frame_settleNow Engine.objects (fun _ _ _ _ => rfl) _ p kind v⟩
  rw [promise_settleNow hlock, if_pos rfl]
  rfl

theorem tally_modifyTally (e : Engine H) (t : TallyRef) (change : Tally → Tally) :
    (e.modifyTally t change).tally t = change (e.tally t) :=
  (Store.get_modify ..).trans (if_pos rfl)

/-- The slot of an element gets its content, for which there may be a new object. -/
theorem slotContent_content (e : Engine H) (c : Collection) (kind : Settling) (v : Value) :
    c.Content (e.slotContent c kind v).2.Presents kind v (e.slotContent c kind v).1 ∧
      (e.slotContent c kind v).2 = { e with objects := (e.slotContent c kind v).2.objects } := by
  cases c with
  | all | any => exact ⟨rfl, rfl⟩
  | allSettled => cases kind <;> exact ⟨e.presents_newObject _, rfl⟩

/-- With no report to come, the result is decided by what the slots hold. -/
theorem concludeTally_announces {r : Tally} (hn : r.outstanding = 0)
    (hr : (e.promise r.result).resolved = false) (hs : (e.promise r.result).state = .pending) :
    r.collection.Announces (e.concludeTally r).Presents ((e.concludeTally r).promise r.result).state
        r.values ∧
      ∀ v x, e.Presents v x → (e.concludeTally r).Presents v x := by
  have hlist := e.presents_newObject (.ofList r.values)
  have hobject : ∀ {o : ObjectRef} q, Value.object o ≠ .promise q := by rintro o q ⟨⟩
  have hfulfill : ∃ list, ((e.newObject (.ofList r.values)).2.resolve r.result
        (e.newObject (.ofList r.values)).1).Presents list (.ofList r.values) ∧
      (((e.newObject (.ofList r.values)).2.resolve r.result
        (e.newObject (.ofList r.values)).1).promise r.result).state = .fulfilled list ∧
      ∀ v x, e.Presents v x → ((e.newObject (.ofList r.values)).2.resolve r.result
        (e.newObject (.ofList r.values)).1).Presents v x := by
    obtain ⟨hstate, hobjects⟩ := settle_pending (e := (e.newObject (.ofList r.values)).2)
      hr hs fun (_ : Settling.fulfill = .fulfill) => hobject
    exact ⟨_, hlist.of_objects hobjects, hstate, fun v x h => (h.newObject _).of_objects hobjects⟩
  unfold concludeTally
  rw [if_pos hn]
  cases hc : r.collection with
  | all | allSettled =>
    obtain ⟨list, hpresents, hstate, hkeep⟩ := hfulfill
    exact ⟨⟨list, hstate, hpresents⟩, hkeep⟩
  | any =>
    let error := (Object.error "AggregateError" "All promises were rejected").set "errors"
      (e.newObject (.ofList r.values)).1
    have herror := (e.newObject (.ofList r.values)).2.presents_newObject error
    obtain ⟨hstate, hobjects⟩ := settle_pending
      (e := ((e.newObject (.ofList r.values)).2.newObject error).2) hr hs
      (v := ((e.newObject (.ofList r.values)).2.newObject error).1)
      (by rintro (⟨⟩ : Settling.reject = .fulfill))
    exact ⟨⟨_, _, hstate, (hlist.newObject error).of_objects hobjects, herror.of_objects hobjects⟩,
      fun v x h => ((h.newObject _).newObject _).of_objects hobjects⟩

/-- A report is counted. -/
theorem countDown_outstanding (hn : (e.tally t).outstanding ≠ 1) (hpos : (e.tally t).outstanding ≠ 0) :
    e.countDown t = e.modifyTally t Tally.countDown := by
  have hafter : (e.tally t).countDown.outstanding ≠ 0 := by
    show (e.tally t).outstanding - 1 ≠ 0
    omega
  unfold countDown concludeTally
  exact if_neg hafter

/-- The last report decides the result. -/
theorem countDown_last (hn : (e.tally t).outstanding = 1)
    (hr : (e.promise (e.tally t).result).resolved = false)
    (hs : (e.promise (e.tally t).result).state = .pending) :
    (e.tally t).collection.Announces (e.countDown t).Presents
        ((e.countDown t).promise (e.tally t).result).state (e.tally t).values ∧
      ∀ v x, e.Presents v x → (e.countDown t).Presents v x := by
  have hzero : (e.tally t).countDown.outstanding = 0 := by
    show (e.tally t).outstanding - 1 = 0
    omega
  obtain ⟨hann, hkeep⟩ := concludeTally_announces
    (e := e.modifyTally t fun _ => (e.tally t).countDown) hzero hr hs
  exact ⟨hann, fun v x h => hkeep v x h⟩

/-- A report that does not count changes nothing. -/
theorem report_of_not_accepts (h : (e.tally t).accepts i = false) (kind : Settling) (v : Value) :
    e.report t i kind v = e := by
  simp only [report, h, Bool.false_eq_true, if_false]

/-- A report fills a slot. -/
theorem report_counts (ha : (e.tally t).accepts i = true) (hn : (e.tally t).outstanding ≠ 1)
    (hpos : (e.tally t).outstanding ≠ 0) (kind : Settling) (v : Value) :
    ∃ content objects,
      e.report t i kind v = { e with
        objects
        tallies := e.tallies.modify t.index fun r => (r.fill i content).countDown } ∧
      (e.tally t).collection.Content (e.report t i kind v).Presents kind v content := by
  obtain ⟨hcontent, hsame⟩ := e.slotContent_content (e.tally t).collection kind v
  generalize hslot : e.slotContent (e.tally t).collection kind v = slot at hcontent hsame
  obtain ⟨content, e₁⟩ := slot
  have htally : (e₁.modifyTally t (·.fill i content)).tally t = (e.tally t).fill i content := by
    rw [tally_modifyTally, show e₁ = _ from hsame]
    rfl
  have heq : e.report t i kind v =
      { e with
        objects := e₁.objects
        tallies := e.tallies.modify t.index fun r => (r.fill i content).countDown } := by
    unfold report
    simp only [ha, if_true, hslot]
    rw [countDown_outstanding (by rw [htally]; exact hn) (by rw [htally]; exact hpos),
      show e₁ = _ from hsame]
    simp only [modifyTally, Store.modify_modify]
    rfl
  exact ⟨content, e₁.objects, heq, hcontent.mono fun v x h => h.of_objects (by rw [heq])⟩

/-- **The report that fills the last slot decides the result.** -/
theorem report_last (ha : (e.tally t).accepts i = true) (hn : (e.tally t).outstanding = 1)
    (hr : (e.promise (e.tally t).result).resolved = false)
    (hs : (e.promise (e.tally t).result).state = .pending) (kind : Settling) (v : Value) :
    ∃ content, (e.tally t).collection.Content (e.report t i kind v).Presents kind v content ∧
      (e.tally t).collection.Announces (e.report t i kind v).Presents
        ((e.report t i kind v).promise (e.tally t).result).state
        ((e.tally t).fill i content).values := by
  obtain ⟨hcontent, hsame⟩ := e.slotContent_content (e.tally t).collection kind v
  generalize hslot : e.slotContent (e.tally t).collection kind v = slot at hcontent hsame
  obtain ⟨content, e₁⟩ := slot
  have htally : (e₁.modifyTally t (·.fill i content)).tally t = (e.tally t).fill i content := by
    rw [tally_modifyTally, show e₁ = _ from hsame]
    rfl
  have hpromise : (e₁.modifyTally t (·.fill i content)).promise (e.tally t).result =
      e.promise (e.tally t).result := by
    rw [show e₁ = _ from hsame]
    rfl
  have heq : e.report t i kind v = (e₁.modifyTally t (·.fill i content)).countDown t := by
    unfold report
    simp only [ha, if_true, hslot]
  obtain ⟨hann, hkeep⟩ := countDown_last (e := e₁.modifyTally t (·.fill i content)) (t := t)
    (by rw [htally]; exact hn) (by rw [htally, ← hr, ← hpromise]; rfl)
    (by rw [htally, ← hs, ← hpromise]; rfl)
  rw [heq]
  refine ⟨content, hcontent.mono fun v x h => hkeep v x h, ?_⟩
  rw [htally] at hann
  exact hann

end Reports

end Engine

/-! ## Elements -/

/-- The code of the callback of an element. -/
def Tally.elementCode (r : Tally) (t : TallyRef) (i : Nat) (kind : Settling) : Code H :=
  if r.collection.decides kind then kind.code r.result else .report t i kind

namespace Engine

/-- The tally of a collection before its elements are in. -/
def emptyTally (e : Engine H) (c : Collection) (items : List Value) : Tally where
  collection := c
  result := ⟨e.promises.size⟩
  slots := items.map fun _ => none
  outstanding := 0

section Collecting

variable {e e' : Engine H} {t : TallyRef} {r : Tally} {c : Collection}
  {items : List Value} {xs : List Listener}

/-- The callbacks of an element are two new functions. -/
theorem elementCallbacks_eq (e : Engine H) (t : TallyRef) (i : Nat) :
    ∃ c c' : Callable H, c.usage = (e.tally t).collection.usage .fulfill ∧
      c'.usage = (e.tally t).collection.usage .reject ∧
      c.code = (e.tally t).elementCode t i .fulfill ∧
      c'.code = (e.tally t).elementCode t i .reject ∧
      e.elementCallbacks t i = ((⟨e.callables.size⟩, ⟨e.callables.size + 1⟩),
        ((e.newFunction c).2.newFunction c').2) := by
  have hsize : ∀ c : Callable H, (e.newFunction c).2.callables.size = e.callables.size + 1 :=
    fun c => Store.size_push ..
  cases hc : (e.tally t).collection <;>
    (simp only [elementCallbacks, hc, Tally.elementCode, Collection.decides, Collection.usage,
      Settling.code]
     refine ⟨_, _, rfl, rfl, ?_, ?_, Prod.ext (Prod.ext rfl ?_) rfl⟩
     exacts [rfl, rfl, congrArg FunctionRef.mk (hsize _)])

/-- The elements have been added to a tally, one after the other, each with two new
functions. -/
structure Enrolls (e e' : Engine H) (t : TallyRef) (r : Tally) (items : List Value)
    (xs : List Listener) : Prop where
  equips : e.Equips e' xs
  represents : e'.Represents items xs
  size : e'.callables.size = e.callables.size + 2 * items.length
  handlers : ∀ (i : Nat) (x : Listener), xs[i]? = some x →
    x.onFulfilled = ⟨e.callables.size + 2 * i⟩ ∧ x.onRejected = ⟨e.callables.size + 2 * i + 1⟩
  codes : ∀ (i : Nat) (x : Listener), xs[i]? = some x → ∀ kind,
    (e'.callable (x.handler kind)).code = r.elementCode t i kind
  usage : ∀ x ∈ xs, ∀ kind, (e'.callable (x.handler kind)).usage = r.collection.usage kind
  allocated : t.index < e'.tallies.size
  counted : e'.tally t = { r with outstanding := r.outstanding + items.length }

theorem Enrolls.handler_lt (h : e.Enrolls e' t r items xs) {i : Nat} {x : Listener}
    (hx : xs[i]? = some x) (kind : Settling) : (x.handler kind).index < e'.callables.size := by
  obtain ⟨hf, hg⟩ := h.handlers i x hx
  have hi : i < items.length := by
    rw [h.represents.length_eq]
    exact (List.getElem?_eq_some_iff.1 hx).1
  rw [h.size]
  cases kind with
  | fulfill =>
    rw [show x.handler .fulfill = _ from hf]
    exact Nat.add_lt_add_left (by omega) _
  | reject =>
    rw [show x.handler .reject = _ from hg, Nat.add_assoc]
    exact Nat.add_lt_add_left (by omega) _

/-- The new functions are those of the listeners. -/
theorem Enrolls.handler_of_made (h : e.Enrolls e' t r items xs) {f : FunctionRef}
    (hf : e.Made e' f) :
    ∃ (i : Nat) (x : Listener) (kind : Settling), xs[i]? = some x ∧ f = x.handler kind := by
  obtain ⟨hle, hlt⟩ := hf
  have hlen : xs.length = items.length := h.represents.length_eq.symm
  have hlt' : f.index < e.callables.size + 2 * items.length := h.size ▸ hlt
  let i := (f.index - e.callables.size) / 2
  have hi : i < xs.length := by omega
  have hx : xs[i]? = some xs[i] := List.getElem?_eq_getElem hi
  obtain ⟨hfulfill, hreject⟩ := h.handlers i _ hx
  by_cases hpar : (f.index - e.callables.size) % 2 = 0
  · refine ⟨i, _, .fulfill, hx, Eq.trans (congrArg FunctionRef.mk ?_) hfulfill.symm⟩
    omega
  · refine ⟨i, _, .reject, hx, Eq.trans (congrArg FunctionRef.mk ?_) hreject.symm⟩
    omega

/-- Elements that have been enrolled are combined. -/
theorem Enrolls.combines (h : e.Enrolls e' t (e.emptyTally c items) items xs)
    (hresult : e.promises.size < e'.promises.size)
    (hr : (e'.promise ⟨e.promises.size⟩).resolved = false) : e.Combines e' c.decides items xs where
  equips := h.equips
  represents := h.represents
  result := hresult
  unresolved := hr
  made f hf := by
    obtain ⟨i, x, kind, hx, rfl⟩ := h.handler_of_made hf
    rw [h.codes i x hx kind, Tally.elementCode]
    split
    · exact .inl ⟨kind, rfl⟩
    · exact .inr ⟨t, i, kind, rfl⟩
  handlers x hx kind := by
    obtain ⟨i, hi⟩ := List.mem_iff_getElem?.1 hx
    refine ⟨?_, h.handler_lt hi kind⟩
    obtain ⟨hfulfill, hreject⟩ := h.handlers i x hi
    cases kind with
    | fulfill =>
      rw [show x.handler .fulfill = _ from hfulfill]
      exact Nat.le_add_right _ _
    | reject =>
      rw [show x.handler .reject = _ from hreject]
      exact Nat.le_add_right _ (2 * i + 1)
  decides x hx kind hkind := by
    obtain ⟨i, hi⟩ := List.mem_iff_getElem?.1 hx
    have hdecides : (e.emptyTally c items).elementCode t i kind =
        (kind.code ⟨e.promises.size⟩ : Code H) := if_pos hkind
    exact ⟨(h.usage x hx kind).trans (Collection.usage_of_decides hkind),
      (h.codes i x hi kind).trans hdecides⟩

/-- One more element. -/
theorem Enrolls.addElement (h : e.Enrolls e' t r items xs) {v : Value}
    (hv : ∀ q, v = .promise q → q.index < e.promises.size) :
    ∃ x, e.Enrolls (e'.addElement t v items.length) t r (items ++ [v]) (xs ++ [x]) := by
  let e₁ := e'.modifyTally t fun r => { r with outstanding := r.outstanding + 1 }
  have htally : e₁.tally t = { e'.tally t with outstanding := (e'.tally t).outstanding + 1 } :=
    (Store.get_modify ..).trans (if_pos rfl)
  obtain ⟨c, c', hu, hu', hcode, hcode', heq⟩ := e₁.elementCallbacks_eq t items.length
  let e₂ := ((e₁.newFunction c).2.newFunction c').2
  let x : Listener := ⟨(e₂.promiseOf v).1, ⟨e'.callables.size⟩, ⟨e'.callables.size + 1⟩⟩
  have hadd : e'.addElement t v items.length =
      (e₂.promiseOf v).2.performThen x.input (some x.onFulfilled) (some x.onRejected) none := by
    unfold Engine.addElement
    simp only [show (e'.modifyTally t _).elementCallbacks t items.length = _ from heq]
    rfl
  have haug : e'.Augments e₂ := .of_eq rfl rfl
  have hrep : e₂.Represents items xs := h.represents.imp fun _ _ hs => hs.of_state rfl
  obtain ⟨h₁, h₂, h₃, h₄⟩ := (h.equips.augments haug).listen hrep hv x.onFulfilled x.onRejected
  have hlen : xs.length = items.length := h.represents.length_eq.symm
  have hcallable : ∀ f, (e'.addElement t v items.length).callable f = e₂.callable f := fun f => by
    rw [callable, hadd, h₃]
    rfl
  have hkept : (e'.addElement t v items.length).tally t = e₁.tally t := by
    rw [tally, hadd, h₄]
    rfl
  have hlast : ∀ (i : Nat) (y : Listener), (xs ++ [x])[i]? = some y →
      xs[i]? = some y ∨ i = items.length ∧ y = x := by
    intro i y hy
    rw [← hlen]
    grind
  -- the new functions are those that the tally asks for
  have hnew : ∀ kind,
      ((e'.addElement t v items.length).callable (x.handler kind)).code =
        r.elementCode t items.length kind ∧
      ((e'.addElement t v items.length).callable (x.handler kind)).usage =
        r.collection.usage kind := by
    intro kind
    have hcollection : (e₁.tally t).collection = r.collection := by rw [htally, h.counted]
    have hcodes : ((e₁.tally t).elementCode t items.length kind : Code H) =
        r.elementCode t items.length kind := by
      rw [htally, h.counted]
      rfl
    rw [hcallable, ← hcodes, ← hcollection]
    have hnew := Ledger.callable_newFunctions e₁ c c'
    cases kind with
    | fulfill =>
      rw [show x.handler .fulfill = (e₁.newFunction c).1 from rfl, hnew.1]
      exact ⟨hcode, hu⟩
    | reject =>
      rw [show x.handler .reject = ((e₁.newFunction c).2.newFunction c').1 from ?_, hnew.2]
      · exact ⟨hcode', hu'⟩
      · exact congrArg FunctionRef.mk (Store.size_push ..).symm
  have hkeep : ∀ {i : Nat} {y : Listener}, xs[i]? = some y → ∀ kind,
      (e'.addElement t v items.length).callable (y.handler kind) = e'.callable (y.handler kind) :=
    fun hy kind => (hcallable _).trans (e₁.callable_of_lt c c' (h.handler_lt hy kind))
  refine ⟨x, hadd ▸ h₁, hadd ▸ h₂, ?_, fun i y hy => ?_, fun i y hy kind => ?_,
    fun y hy kind => ?_, ?_, ?_⟩
  · rw [hadd, h₃, List.length_append, List.length_singleton]
    rw [show e₂.callables.size = _ from size_newFunctions e₁ c c',
      show e₁.callables.size = _ from h.size]
    omega
  · obtain hy | ⟨rfl, rfl⟩ := hlast i y hy
    · exact h.handlers i y hy
    · exact ⟨congrArg FunctionRef.mk h.size, congrArg (fun n => FunctionRef.mk (n + 1)) h.size⟩
  · obtain hy | ⟨rfl, rfl⟩ := hlast i y hy
    · rw [hkeep hy]
      exact h.codes i y hy kind
    · exact (hnew kind).1
  · rcases List.mem_append.1 hy with hy | hy
    · obtain ⟨i, hi⟩ := List.mem_iff_getElem?.1 hy
      rw [hkeep hi]
      exact h.usage y hy kind
    · rw [List.mem_singleton.1 hy]
      exact (hnew kind).2
  · rw [hadd, h₄]
    exact h.allocated.trans_le ((le_max_left ..).trans_eq (Store.size_set ..).symm)
  · rw [hkept, htally, h.counted, List.length_append, List.length_singleton]
    rfl

/-- The loop of a collection. -/
theorem enrolls_foldl (e : Engine H) (t : TallyRef) (ht : t.index < e.tallies.size)
    (items : List Value) (hv : ∀ q, .promise q ∈ items → q.index < e.promises.size) :
    ∃ xs, e.Enrolls (items.zipIdx.foldl (fun e (v, i) => e.addElement t v i) e) t (e.tally t) items
      xs := by
  induction items using List.reverseRecOn with
  | nil =>
    exact ⟨[], .refl e, .nil, rfl, (fun i x hx => by cases hx), (fun i x hx => by cases hx),
      List.forall_mem_nil _, ht, rfl⟩
  | append_singleton items v ih =>
    obtain ⟨xs, h⟩ := ih fun q hq => hv q (List.mem_append_left _ hq)
    have hitem : ∀ q, v = .promise q → q.index < e.promises.size := by
      rintro q rfl
      exact hv q (List.mem_append_right _ (List.mem_singleton.2 rfl))
    obtain ⟨x, hx⟩ := h.addElement hitem
    refine ⟨xs ++ [x], ?_⟩
    rw [List.zipIdx_append, List.foldl_append, Nat.zero_add]
    exact hx

end Collecting

/-! ## Set-up -/

section SetUp

variable {e : Engine H} {c : Collection} {items : List Value}

/-- The set-up of a collection after some of its elements. -/
def enrolling (e : Engine H) (c : Collection) (items : List Value) (k : Nat) : Engine H :=
  let (result, e) := e.newPromise
  let (t, e) := e.newTally { collection := c, result, slots := items.map fun _ => none }
  (items.take k).zipIdx.foldl (fun e (v, i) => e.addElement t v i) e

theorem collect_eq (e : Engine H) (c : Collection) (items : List Value) :
    (e.collect c items).2 = (e.enrolling c items items.length).countDown ⟨e.tallies.size⟩ := by
  rw [enrolling, List.take_length]
  rfl

/-- Before the first element there are a promise and a tally more. -/
theorem augments_enrolling (e : Engine H) (c : Collection) (items : List Value) :
    e.Augments (e.enrolling c items 0) :=
  e.augments_newPromise.trans (.of_eq rfl rfl)

theorem promise_enrolling (e : Engine H) (c : Collection) (items : List Value) :
    (e.enrolling c items 0).promise ⟨e.promises.size⟩ = { id := e.nextId } :=
  (promise_newPromise e _).trans (if_pos rfl)

/-- **What has been enrolled after some elements.** -/
theorem enrolls_enrolling (hv : ∀ q, .promise q ∈ items → q.index < e.promises.size)
    (c : Collection) (k : Nat) :
    ∃ xs, (e.enrolling c items 0).Enrolls (e.enrolling c items k) ⟨e.tallies.size⟩
      { e.emptyTally c items with outstanding := 1 } (items.take k) xs := by
  let r : Tally := { e.emptyTally c items with outstanding := 1 }
  have hr : (e.enrolling c items 0).tally ⟨e.tallies.size⟩ = r :=
    (Store.get_push ..).trans (if_pos rfl)
  have ht : e.tallies.size < (e.enrolling c items 0).tallies.size :=
    (Nat.lt_succ_self _).trans_eq (Store.size_push ..).symm
  obtain ⟨xs, h⟩ := (e.enrolling c items 0).enrolls_foldl ⟨e.tallies.size⟩ ht (items.take k)
    fun q hq => (hv q (List.mem_of_mem_take hq)).trans_le (e.augments_enrolling c items).size
  rw [hr] at h
  exact ⟨xs, h⟩

/-- **A collection** attaches two new functions to each of its elements, and counts one report
for each. -/
theorem Enrolls.collect {xs : List Listener}
    (h : (e.enrolling c items 0).Enrolls (e.enrolling c items items.length) ⟨e.tallies.size⟩
      { e.emptyTally c items with outstanding := 1 } items xs) (hne : items ≠ []) :
    e.Enrolls (e.collect c items).2 ⟨e.tallies.size⟩ (e.emptyTally c items) items xs ∧
      e.Combines (e.collect c items).2 c.decides items xs := by
  let t : TallyRef := ⟨e.tallies.size⟩
  have hresult : e.promises.size < (e.enrolling c items 0).promises.size :=
    (Nat.lt_succ_self _).trans_eq (Store.size_push ..).symm
  have hlen : 0 < items.length := List.length_pos_iff.2 hne
  -- the set-up itself has been counted as well
  have hcollect : (e.collect c items).2 =
      (e.enrolling c items items.length).modifyTally t Tally.countDown := by
    refine (e.collect_eq c items).trans (countDown_outstanding ?_ ?_) <;>
    · rw [h.counted]
      show 1 + items.length ≠ _
      omega
  have hdone : e.Enrolls (e.collect c items).2 t (e.emptyTally c items) items xs := by
    rw [hcollect]
    refine ⟨(Equips.of_augments (e.augments_enrolling c items) h.equips).augments (.of_eq rfl rfl),
      h.represents.imp fun _ _ hs => hs.of_state rfl, h.size, h.handlers, h.codes, h.usage, ?_, ?_⟩
    · exact h.allocated.trans_le ((le_max_left ..).trans_eq (Store.size_set ..).symm)
    · rw [tally_modifyTally, h.counted]
      simp only [Tally.countDown, emptyTally]
      rw [Nat.add_sub_cancel_left, Nat.zero_add]
  refine ⟨hdone, hdone.combines ?_ ?_⟩
  · rw [hcollect]
    exact hresult.trans_le h.equips.size
  · rw [hcollect]
    exact (h.equips.resolved ⟨e.promises.size⟩ hresult).trans
      (congrArg Promise.resolved (e.promise_enrolling c items))

/-- A collection of nothing is decided at once. -/
theorem collect_nil (e : Engine H) (c : Collection) :
    c.Announces (e.collect c []).2.Presents ((e.collect c []).2.promise ⟨e.promises.size⟩).state
      [] := by
  let t : TallyRef := ⟨e.tallies.size⟩
  let r : Tally := { e.emptyTally c [] with outstanding := 1 }
  let e₁ := (e.newPromise.2.newTally r).2
  have hr : e₁.tally t = r := (Store.get_push ..).trans (if_pos rfl)
  have hfresh : e₁.promise ⟨e.promises.size⟩ = { id := e.nextId } :=
    (promise_newPromise e _).trans (if_pos rfl)
  have hann := (countDown_last (e := e₁) (t := t) (by rw [hr])
    (by rw [hr]; exact congrArg Promise.resolved hfresh)
    (by rw [hr]; exact congrArg Promise.state hfresh)).1
  rw [hr] at hann
  exact hann

end SetUp

end Engine

end Microtask
