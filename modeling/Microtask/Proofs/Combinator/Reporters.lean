import Microtask.Proofs.Combinator.Tallies

/-!
# Who reports to a tally

Nothing but the set-up of a collection makes functions that report to its tally, so these are
the callbacks of its elements that do not decide (`Engine.Reporters`). Those of `all` and `any`
do not look at the slots: they may be called once, and they are spent if and only if the slot of
their element is filled. So a call fills the slot if it is empty, and otherwise it changes
nothing (`Engine.Reporters.callFunction`).

Main statement: `Step.reporters`.
-/

namespace Microtask

variable {H : Type}

/-! ## What a report changes -/

theorem Tally.isOpen_fill (r : Tally) (i j : Nat) (v : Value) :
    (r.fill i v).isOpen j = if j = i then false else r.isOpen j := by
  rw [Bool.eq_iff_iff, Tally.isOpen_iff, Tally.fill, List.getElem?_set]
  by_cases hij : j = i
  · subst hij
    simp
  · rw [if_neg (Ne.symm hij), if_neg hij, Tally.isOpen_iff]

namespace Engine

variable {e : Engine H} {t : TallyRef}

/-- The result of a tally is decided without tallies or functions. -/
theorem frame_concludeTally (e : Engine H) (r : Tally) :
    (e.concludeTally r).tallies = e.tallies ∧ (e.concludeTally r).callables = e.callables := by
  have hsettle : ∀ (e₁ : Engine H) kind (o : ObjectRef), e₁.tallies = e.tallies →
      e₁.callables = e.callables → (e₁.settle r.result kind (.object o)).tallies = e.tallies ∧
        (e₁.settle r.result kind (.object o)).callables = e.callables := by
    intro e₁ kind o htallies hcallables
    have hobject : kind = .fulfill → ∀ q, Value.object o ≠ .promise q := by
      rintro - q ⟨⟩
    cases hr : (e₁.promise r.result).resolved with
    | true =>
      rw [settle_of_resolved hr]
      exact ⟨htallies, hcallables⟩
    | false =>
      rw [settle_of_unresolved hr hobject, tallies_settleNow, callables_settleNow]
      exact ⟨htallies, hcallables⟩
  unfold concludeTally
  split
  · cases r.collection with
    | all | allSettled => exact hsettle _ .fulfill _ rfl rfl
    | any => exact hsettle _ .reject _ rfl rfl
  · exact ⟨rfl, rfl⟩

theorem tally_countDown (e : Engine H) (t : TallyRef) :
    (e.countDown t).tally t = (e.tally t).countDown := by
  rw [countDown, tally, (frame_concludeTally _ _).1]
  exact e.tally_modifyTally t fun _ => (e.tally t).countDown

theorem allocated_countDown (h : t.index < e.tallies.size) :
    t.index < (e.countDown t).tallies.size := by
  rw [countDown, (frame_concludeTally _ _).1]
  exact h.trans_le ((le_max_left ..).trans_eq (Store.size_set ..).symm)

theorem callables_countDown (e : Engine H) (t : TallyRef) :
    (e.countDown t).callables = e.callables :=
  (frame_concludeTally _ _).2

/-- What a report changes that counts, apart from what there is to show for it. -/
theorem report_eq {i : Nat} (ha : (e.tally t).accepts i = true) (kind : Settling) (v : Value) :
    ∃ objects, e.report t i kind v =
      (({ e with objects }).modifyTally t
        (·.fill i (e.slotContent (e.tally t).collection kind v).1)).countDown t := by
  obtain ⟨-, hsame⟩ := e.slotContent_content (e.tally t).collection kind v
  refine ⟨(e.slotContent (e.tally t).collection kind v).2.objects, ?_⟩
  rw [← hsame]
  exact if_pos ha

theorem tally_report {i : Nat} (ha : (e.tally t).accepts i = true) (kind : Settling) (v : Value) :
    (e.report t i kind v).tally t =
      ((e.tally t).fill i (e.slotContent (e.tally t).collection kind v).1).countDown := by
  obtain ⟨objects, heq⟩ := report_eq ha kind v
  rw [heq, tally_countDown, tally_modifyTally]
  rfl

/-- The slot of the element is filled, and the other ones are as before. -/
theorem isOpen_report {i : Nat} (ha : (e.tally t).accepts i = true) (kind : Settling) (v : Value)
    (j : Nat) : ((e.report t i kind v).tally t).isOpen j =
      if j = i then false else (e.tally t).isOpen j := by
  rw [tally_report ha]
  exact (e.tally t).isOpen_fill i j _

theorem callables_report {i : Nat} (ha : (e.tally t).accepts i = true) (kind : Settling)
    (v : Value) : (e.report t i kind v).callables = e.callables := by
  obtain ⟨objects, heq⟩ := report_eq ha kind v
  rw [heq]
  exact callables_countDown ..

theorem allocated_report {i : Nat} (ha : (e.tally t).accepts i = true) (kind : Settling)
    (v : Value) (h : t.index < e.tallies.size) : t.index < (e.report t i kind v).tallies.size := by
  obtain ⟨objects, heq⟩ := report_eq ha kind v
  rw [heq]
  exact allocated_countDown (h.trans_le ((le_max_left ..).trans_eq (Store.size_set ..).symm))

/-! ## Reporters -/

/-- The functions that report to the tally are the callbacks of its elements that do not decide.
Those that may be called once have been called if and only if the slot of their element is
filled. -/
structure Reporters (e : Engine H) (t : TallyRef) (c : Collection) (xs : List Listener) : Prop where
  allocated : t.index < e.tallies.size
  collection : (e.tally t).collection = c
  made : ∀ x ∈ xs, ∀ kind, (x.handler kind).index < e.callables.size
  handlers : e.Codes fun _ f code => ∀ i kind, code = .report t i kind →
    c.decides kind = false ∧ ∃ x, xs[i]? = some x ∧ x.handler kind = f
  vacant : ∀ f i kind, (e.callable f).code = .report t i kind → (e.tally t).isOpen i = true →
    (e.callable f).usage = c.usage kind
  filled : ∀ f i kind, (e.callable f).code = .report t i kind → (e.tally t).isOpen i = false →
    (e.callable f).usage = (c.usage kind).used

namespace Reporters

variable {c : Collection} {xs : List Listener} {f : FunctionRef} {i : Nat} {kind : Settling}
  (h : e.Reporters t c xs) (hcode : (e.callable f).code = .report t i kind)
include h hcode

theorem lt_length : i < xs.length := by
  obtain ⟨-, x, hx, -⟩ := h.handlers f i kind hcode
  exact (List.getElem?_eq_some_iff.1 hx).1

/-- With a filled slot a call does nothing, because the function is spent or looks at the slot. -/
theorem callFunction_of_filled (hfilled : (e.tally t).isOpen i = false) (args : List Value)
    (k : Caller H) : e.callFunction f args k = ⟨e, .deliver (.ok .undefined) k⟩ := by
  have husage := h.filled f i kind hcode hfilled
  cases hu : c.usage kind with
  | repeatable =>
    rw [hu, Usage.used] at husage
    have hc : (e.tally t).collection = .allSettled :=
      h.collection.trans (Collection.eq_allSettled (h.handlers f i kind hcode).1 hu)
    have hnot : (e.tally t).accepts i = false := by
      rw [Tally.accepts, hc]
      exact hfilled
    simp only [callFunction, husage, hcode, runCode, report_of_not_accepts hnot]
  | once | spent =>
    rw [hu, Usage.used] at husage
    simp only [callFunction, husage]

/-- With an empty slot it reports. -/
theorem callFunction_of_vacant (hvacant : (e.tally t).isOpen i = true) (args : List Value)
    (k : Caller H) :
    e.callFunction f args k =
      ⟨(e.used f).report t i kind (Value.argument args 0), .deliver (.ok .undefined) k⟩ := by
  have husage := h.vacant f i kind hcode hvacant
  cases hu : c.usage kind with
  | spent => cases c <;> cases kind <;> cases hu
  | repeatable | once =>
    rw [hu] at husage
    simp only [callFunction, used, husage, hcode]
    rfl

/-- **A call fills the slot of the element**, if it is empty. -/
theorem callFunction (args : List Value) (k : Caller H) :
    e.callFunction f args k =
      ⟨if (e.tally t).isOpen i then (e.used f).report t i kind (Value.argument args 0) else e,
        .deliver (.ok .undefined) k⟩ := by
  split
  · next hvacant => exact h.callFunction_of_vacant hcode hvacant args k
  · next hfilled => exact h.callFunction_of_filled hcode (Bool.eq_false_iff.2 hfilled) args k

/-- The functions of one element are the same, or there are two of them that may be called
repeatedly. -/
theorem eq_or_repeatable {g : FunctionRef} {kind' : Settling}
    (hg : (e.callable g).code = .report t i kind') :
    g = f ∨ c.usage kind' = .repeatable := by
  obtain ⟨hd, x, hx, rfl⟩ := h.handlers f i kind hcode
  obtain ⟨hd', y, hy, rfl⟩ := h.handlers g i kind' hg
  obtain rfl := Option.some.inj (hx.symm.trans hy)
  by_cases hkind : kind' = kind
  · exact .inl (hkind ▸ rfl)
  · right
    revert hd hd' hkind
    cases c <;> cases kind <;> cases kind' <;> decide

/-- After a report that fills a slot, the function is spent if it may be called once. -/
theorem report (hvacant : (e.tally t).isOpen i = true) (v : Value) :
    ((e.used f).report t i kind v).Reporters t c xs := by
  have hopen : ((e.used f).tally t).isOpen i = true := by rwa [tally_used]
  have ha := Tally.accepts_of_isOpen hopen
  have hcallable : ∀ g, ((e.used f).report t i kind v).callable g = (e.used f).callable g :=
    fun g => by rw [callable, callables_report ha]; rfl
  have hcodes : ∀ g, (((e.used f).report t i kind v).callable g).code = (e.callable g).code :=
    fun g => by rw [hcallable, code_used]
  -- the functions of the other elements are as before
  have hother : ∀ g j kind', (e.callable g).code = .report t j kind' → j ≠ i →
      (e.used f).callable g = e.callable g := by
    intro g j kind' hg hne
    rw [callable_used, if_neg]
    rintro rfl
    cases hg.symm.trans hcode
    exact hne rfl
  constructor
  case allocated =>
    exact allocated_report ha kind v (h.allocated.trans_le (grows_used e f).tallies)
  case collection =>
    rw [tally_report ha, tally_used]
    exact h.collection
  case made =>
    intro x hx kind'
    rw [callables_report ha]
    exact (h.made x hx kind').trans_le (grows_used e f).callables
  case handlers => exact fun g j kind' hg => h.handlers g j kind' ((hcodes g).symm.trans hg)
  case vacant =>
    intro g j kind' hg hj
    rw [hcodes] at hg
    rw [isOpen_report ha, tally_used] at hj
    split at hj
    · cases hj
    · next hne =>
      rw [hcallable, hother g j kind' hg hne]
      exact h.vacant g j kind' hg hj
  case filled =>
    intro g j kind' hg hj
    rw [hcodes] at hg
    rw [isOpen_report ha, tally_used] at hj
    rw [hcallable]
    split at hj
    · next heq =>
      subst heq
      rw [callable_used]
      split
      · next hgf =>
        subst hgf
        cases hcode.symm.trans hg
        exact congrArg Usage.used (h.vacant g j kind hcode hvacant)
      · next hne =>
        have hrep := (h.eq_or_repeatable hcode hg).resolve_left hne
        rw [h.vacant g j kind' hg hvacant, hrep]
        rfl
    · next hne =>
      rw [hother g j kind' hg hne]
      exact h.filled g j kind' hg hj

end Reporters

end Engine

/-! ## Steps -/

section Steps

variable {w w' : World H} {m : Move H} {t : TallyRef} {c : Collection} {xs : List Listener}

/-- A function that reports to the tally is being called. -/
theorem Control.call_of_mem_tally? {c : Control H} {e : Engine H} (h : t ∈ c.tally? e) :
    ∃ f args k i kind, c = .call f args k ∧ (e.callable f).code = .report t i kind := by
  cases c with
  | call f args k =>
    have hcode : (e.callable f).code.tally? = some t := h
    cases hc : (e.callable f).code with
    | report u i kind =>
      rw [hc] at hcode
      obtain rfl := Option.some.inj hcode
      exact ⟨f, args, k, i, kind, rfl, hc⟩
    | _ =>
      rw [hc] at hcode
      cases hcode
  | _ => cases h

/-- The call of a function that reports. -/
theorem Step.reported (h : Step w m w') (hw : w.config.engine.Reporters t c xs) {f : FunctionRef}
    {args : List Value} {k : Caller H} (hc : w.config.control = .call f args k) {i : Nat}
    {kind : Settling} (hcode : (w.config.engine.callable f).code = .report t i kind) :
    w' = ⟨⟨if (w.config.engine.tally t).isOpen i then
        (w.config.engine.used f).report t i kind (Value.argument args 0)
      else w.config.engine, .deliver (.ok .undefined) k⟩, w.held⟩ := by
  cases h with
  | tick c' held =>
    obtain ⟨e, control⟩ := c'
    cases hc
    exact congrArg (World.mk · held) (hw.callFunction hcode args k)
  | _ => cases hc

/-- A step that calls none of the functions leaves them and the tally as they are. -/
theorem Step.reporters_of_quiet (h : Step w m w') (hbacked : w.config.engine.Backed)
    (hw : w.config.engine.Reporters t c xs)
    (hquiet : t ∉ w.config.control.tally? w.config.engine) :
    w'.config.engine.Reporters t c xs := by
  have hgrows := h.grows hbacked
  have htally := h.tally hbacked hw.allocated hquiet
  -- no function is made that reports to the tally
  have hG : (Rights.silent t).Vouches (H := H) fun _ f code => ∀ i kind, code = .report t i kind →
      c.decides kind = false ∧ ∃ x, xs[i]? = some x ∧ x.handler kind = f :=
    { grows := fun _ h => h
      granted := by
        rintro e f c h i kind rfl
        exact absurd rfl h.2.2
      engaged := by
        rintro e f c x h i kind rfl
        cases h }
  have hhandlers := h.codes hbacked (Rights.silent_covers hw.allocated hquiet) hG hw.handlers
  have hsame : ∀ f i kind, (w'.config.engine.callable f).code = .report t i kind →
      w'.config.engine.callable f = w.config.engine.callable f := by
    intro f i kind hcode
    obtain ⟨-, x, hx, rfl⟩ := hhandlers f i kind hcode
    have hlt := hw.made x (List.mem_of_getElem? hx) kind
    rw [hgrows.code _ hlt] at hcode
    refine h.callable hbacked hlt fun _ => ⟨by rw [hcode]; rfl, fun hcallee => hquiet ?_⟩
    obtain ⟨args, k, hc⟩ := Control.exists_callee hcallee
    rw [hc]
    exact congrArg Code.tally? hcode
  refine ⟨hw.allocated.trans_le hgrows.tallies, htally ▸ hw.collection,
    fun x hx kind => (hw.made x hx kind).trans_le hgrows.callables, hhandlers,
    fun f i kind hcode hopen => ?_, fun f i kind hcode hopen => ?_⟩
  all_goals
    rw [htally] at hopen
    have hf := hsame f i kind hcode
    rw [hf] at hcode ⊢
  · exact hw.vacant f i kind hcode hopen
  · exact hw.filled f i kind hcode hopen

/-- **The functions that report stay the callbacks of the elements**, whatever the host does. -/
theorem Step.reporters (h : Step w m w') (hbacked : w.config.engine.Backed)
    (hw : w.config.engine.Reporters t c xs) : w'.config.engine.Reporters t c xs := by
  by_cases hcall : t ∈ w.config.control.tally? w.config.engine
  · obtain ⟨f, args, k, i, kind, hcontrol, hcode⟩ := Control.call_of_mem_tally? hcall
    obtain rfl := h.reported hw hcontrol hcode
    show (if _ then _ else _ : Engine H).Reporters t c xs
    split
    · next hvacant => exact hw.report hcode hvacant _
    · exact hw
  · exact h.reporters_of_quiet hbacked hw hcall

end Steps

end Microtask
