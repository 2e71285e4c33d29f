import Microtask.Proofs.Combinator.Reporters
import Microtask.Proofs.Promise.Reserved
import Microtask.Proofs.Promise.Spared

/-!
# Verdicts

From the step on that sets a combinator up, its result is reserved for the functions made by
that step, and these are called for its listeners only. So the result is open until one of
them is called (`Step.open_of_passing`), and a function that decides settles the result with
what it is called with (`Step.decided`).

The host can interfere by settling the result itself, and by that only (`HostDecides`).
-/

namespace Microtask

variable {H : Type}

/-! ## Asking for a combinator -/

/-- A collection or a race. -/
inductive Combinator where
  | collection (c : Collection)
  | race

namespace Combinator

variable (k : Combinator) (items : List Value)

/-- The name of the function of the promise constructor. -/
def method : Combinator → String
  | collection .all => "all"
  | collection .allSettled => "allSettled"
  | collection .any => "any"
  | race => "race"

def op : Combinator → List Value → Op H
  | collection c, items => .collect c items
  | race, items => .race items

def make (e : Engine H) : Combinator → List Value → PromiseRef × Engine H
  | collection c, items => e.collect c items
  | race, items => e.race items

theorem spares_make (e : Engine H) : e.Spares (k.make e items).2 := by
  cases k with
  | collection c => exact Engine.spares_collect e c items
  | race => exact Engine.spares_race e items

end Combinator

/-- The host asks for a combinator of some items: with a list, or with an array for the function
of the promise constructor. -/
inductive World.Asks (w : World H) (k : Combinator) (items : List Value) : Move H → Prop where
  | list : Asks w k items (.perform (k.op items))
  | array {args : List Value} : w.config.engine.elements? (Value.argument args 0) = some items →
      Asks w k items (.perform (.promiseFunction k.method args))

/-- What a move leaves behind that asks for a combinator. -/
structure World.Makes (w : World H) (m : Move H) (w' : World H) (k : Combinator)
    (items : List Value) : Prop where
  lossless : m.Lossless
  drives : w.drives m = []
  request : m.request? = none
  answers : ∃ a prompt, w.config.control = .host a prompt ∧
    w' = ⟨⟨(k.make w.config.engine items).2,
      .host a (.answered (.value (.ok (.promise ⟨w.config.engine.promises.size⟩))))⟩, w.held⟩

theorem Step.makes {w w' : World H} {m : Move H} (h : Step w m w') {k : Combinator}
    {items : List Value} (hm : w.Asks k items m) : w.Makes m w' k items := by
  cases hm with
  | list =>
    cases k <;>
    · cases h
      exact ⟨⟨rfl, by rintro ⟨⟩⟩, rfl, rfl, _, _, rfl, rfl⟩
  | @array args hitems =>
    cases h with
    | @perform e a prompt held op hop =>
      have hfunction : e.promiseFunction k.method args =
          (.ok ⟨e.promises.size⟩, (k.make e items).2) := by
        have hitems : e.elements? (Value.argument args 0) = some items := hitems
        cases k with
        | collection c => cases c <;> simp only [Engine.promiseFunction, Combinator.method, hitems] <;> rfl
        | race => simp only [Engine.promiseFunction, Combinator.method, hitems]; rfl
      refine ⟨⟨rfl, by rintro ⟨⟩⟩, rfl, rfl, a, prompt, rfl, ?_⟩
      show World.mk (e.perform a (.promiseFunction k.method args)) _ = _
      rw [Engine.perform, hfunction]
      rfl

/-! ## What is set up -/

section SetUp

variable {w w' : World H} {m : Move H} {es : List (Event H)} {k : Combinator}
  {items : List Value} {xs : List Listener} {D : Settling → Bool}

/-- The function is made by what happens between the two worlds. -/
abbrev World.Made (w w' : World H) (f : FunctionRef) : Prop :=
  w.config.engine.Made w'.config.engine f

/-- The code of a function is that of before, or the function has been made, or there is no
such function. -/
theorem Step.code_cases (h : Step w m w') (hbacked : w.config.engine.Backed) (f : FunctionRef) :
    (w'.config.engine.callable f).code = (w.config.engine.callable f).code ∨ w.Made w' f ∨
      (w'.config.engine.callable f).code = .constant .undefined .fulfill := by
  by_cases hold : f.index < w.config.engine.callables.size
  · exact .inl ((h.grows hbacked).code f hold)
  · by_cases hnew : f.index < w'.config.engine.callables.size
    · exact .inr (.inl ⟨Nat.le_of_not_lt hold, hnew⟩)
    · have hnone : w'.config.engine.callable f = default :=
        Store.get_of_size_le (Nat.le_of_not_lt hnew)
      rw [hnone]
      exact .inr (.inr rfl)

namespace Engine.Combines

variable {e e' : Engine H} {f : FunctionRef}

theorem free (hc : e.Combines e' D items xs) (hf : e.Made e' f) :
    (e'.callable f).code.engagement? = none := by
  obtain ⟨kind, hcode⟩ | ⟨t, i, kind, hcode⟩ := hc.made f hf
  · rw [hcode]
    cases kind <;> rfl
  · rw [hcode]
    rfl

theorem ne_afterwards (hc : e.Combines e' D items xs) (hf : e.Made e' f) (callback : FunctionRef)
    (kind : Settling) : (e'.callable f).code ≠ .afterwards callback kind := by
  obtain ⟨kind', hcode⟩ | ⟨t, i, kind', hcode⟩ := hc.made f hf
  · rw [hcode]
    cases kind' <;> rintro ⟨⟩
  · rw [hcode]
    rintro ⟨⟩

/-- The listeners wait, or their jobs do. -/
theorem attends (hc : e.Combines w'.config.engine D items xs) {x : Listener} (hx : x ∈ xs) :
    w'.Attends [] x := by
  rcases hc.equips.attends hx with hl | ⟨kind, v, hstate, hj⟩
  · exact .waiting hl
  · exact .queued hstate (List.mem_append_left _ hj)

end Engine.Combines

namespace World.Makes

theorem held (hmakes : w.Makes m w' k items) : w'.held = w.held := by
  obtain ⟨a, prompt, -, rfl⟩ := hmakes.answers
  rfl

variable (hmakes : w.Makes m w' k items) (h : Run es w) (hs : Step w m w')
  (hc : w.config.engine.Combines w'.config.engine D items xs)
include hmakes h hs hc

/-- **The new functions are kept for the listeners only.** -/
theorem confines : w'.Confines (w.Made w') xs := by
  have hsound := (Run.exclusive h).lawful.sound
  have hbacked := Run.backed h
  have hold : ∀ {f : FunctionRef}, f.index < w.config.engine.callables.size → ¬ w.Made w' f :=
    fun hlt hf => Nat.not_lt_of_le hf.1 hlt
  refine ⟨⟨fun f hf => ⟨hf.2, hc.free hf⟩, fun q kind r hr f hf hown => ?_,
    fun r v hj f hf hown => ?_, fun f callback kind hcode => ?_⟩, fun f args k hcall => ?_⟩
  · rcases hc.equips.mem_reactions hr with hr | ⟨x, hx, hq, rfl⟩
    · obtain ⟨-, d, hd⟩ := hsound.paired.bears hr
      exact absurd hown (hold (hd.allocated hf))
    · rw [x.reaction_eq] at hf
      exact ⟨x, hx, hq, Option.some.inj hf⟩
  · have hbefore : .reaction r v ∈ (w.ledger (requestsIn es)).jobs →
        w'.config.engine.Hands xs f v := by
      intro hj
      obtain ⟨d, hd⟩ : ∃ d, w.config.engine.Bears r d := hsound.jobs _ hj
      exact absurd hown (hold (hd.allocated hf))
    rcases List.mem_append.1 hj with hj | hj
    · rcases hc.equips.mem_waitingJobs hj with hj | ⟨x, hx, kind, u, hstate, hjob⟩
      · exact hbefore (List.mem_append_left _ hj)
      · rw [x.job_eq, x.reaction_eq] at hjob
        cases hjob
        cases hf
        exact ⟨x, hx, kind, rfl, hstate⟩
    · exact hbefore (List.mem_append_right _ (show _ ∈ w.held from hmakes.held ▸ hj))
  · obtain hsame | hmade | hnone := hs.code_cases hbacked f
    · exact hold (hbacked.plain (hsame ▸ hcode)).allocated
    · exact absurd hcode (hc.ne_afterwards hmade callback kind)
    · cases hnone.symm.trans hcode
  · obtain ⟨a, prompt, -, rfl⟩ := hmakes.answers
    cases hcall

/-- **The result is reserved for the new functions.** -/
theorem reserved : w'.Reserved (⟨w, m⟩ :: es) ⟨w.config.engine.promises.size⟩ none
    (w.Made w') := by
  have hbacked := Run.backed h
  have hgrows := hs.grows hbacked
  have hbefore : w.Reserved es ⟨w.config.engine.promises.size⟩ none (w.Made w') :=
    Run.reserved_unborn h le_rfl
  have hlater : ∀ {l : Ledger H}, l = w.ledger (requestsIn es) →
      l.Means (·.Foreign none) (¬ w.Made w' ·) ⟨w.config.engine.promises.size⟩ →
        Entrusted (⟨w, m⟩ :: es) ⟨w.config.engine.promises.size⟩ := by
    rintro l rfl hmeans
    exact (hbefore.means hmeans).later _
  refine ⟨fun hmeans => ?_, fun d hd hne => ?_, fun a r hr => ?_⟩
  · have hstack : (w'.ledger (requestsIn (⟨w, m⟩ :: es))).stack =
        (w.ledger (requestsIn es)).stack := by
      obtain ⟨a, prompt, hhost, rfl⟩ := hmakes.answers
      show a.duties = w.config.control.duties
      rw [hhost]
      rfl
    refine hlater rfl ?_
    cases hmeans with
    | @function f hf hcode =>
      have hf' : ((w'.config.engine.callable f).code.engagement? = none → ¬ w.Made w' f) := hf
      have hcode' : (w'.config.engine.callable f).code.Settles (·.Foreign none) _ := hcode
      obtain hsame | hmade | hnone := hs.code_cases hbacked f
      · rw [hsame] at hf' hcode'
        exact .function hf' hcode'
      · exact absurd hmade (hf' (hc.free hmade))
      · rw [hnone] at hcode'
        cases hcode'.settles
    | @report f t i kind hf hcode ht hresult =>
      have hcode' : (w'.config.engine.callable f).code = .report t i kind := hcode
      obtain hsame | hmade | hnone := hs.code_cases hbacked f
      · have ht' := hbacked.allocated (hsame ▸ hcode')
        exact .report hf (hsame ▸ hcode') ht' ((hgrows.result t ht').symm.trans hresult)
      · exact absurd hmade hf
      · cases hnone.symm.trans hcode'
    | reaction q kind hK hr hcap =>
      rcases hc.equips.mem_reactions hr with hr | ⟨x, -, -, rfl⟩
      · exact .reaction q kind hK hr hcap
      · rw [x.reaction_eq] at hcap
        cases hcap
    | @job j hK hj hcap =>
      rcases List.mem_append.1 hj with hj | hj
      · rcases hc.equips.mem_waitingJobs hj with hj | ⟨x, -, kind, u, -, rfl⟩
        · exact .job hK (List.mem_append_left _ hj) hcap
        · rw [x.job_eq, x.reaction_eq] at hcap
          cases hcap
      · exact .job hK (List.mem_append_right _ (show _ ∈ w.held from hmakes.held ▸ hj)) hcap
    | duty hd hsettles => exact .duty (hstack ▸ hd) hsettles
  · have hpasses := hs.passes hmakes.lossless hbacked (Run.exclusive h).lawful
      (Duty.ofStep_of_answers hd) (by rw [hmakes.drives]; exact List.forall_mem_nil _)
    exact hpasses.1.owed.trans (hbefore.owed d hd hne)
  · have hgen : w'.config.engine.asyncGenerators = w.config.engine.asyncGenerators := by
      obtain ⟨a', prompt, -, rfl⟩ := hmakes.answers
      exact (k.spares_make items w.config.engine).asyncGenerators
    rw [Engine.asyncGenerator, hgen] at hr
    exact hbefore.queued a r hr

end World.Makes

end SetUp

/-! ## What the host decides itself -/

/-- In the course of some events the host settles the promise itself that was unresolved: by
an operation, by calling one of the given functions or having it called, or with means of
settling it that it has asked for. -/
inductive HostDecides (own : FunctionRef → Prop) (p : PromiseRef) : List (Event H) → Prop where
  | operation {ev : Event H} {es : List (Event H)} :
      (ev.before.config.engine.promise p).resolved = false → p ∈ ev.move.settles →
      HostDecides own p (ev :: es)
  | callback {ev : Event H} {es : List (Event H)} {f : FunctionRef} :
      f ∈ ev.move.functions → own f → HostDecides own p (ev :: es)
  | means {ev : Event H} {es : List (Event H)} :
      (ev.before.config.engine.promise p).resolved = false → p ∈ ev.before.targets ev.move →
      (∀ f ∈ ev.before.config.control.callee?, ¬ own f) → Entrusted (ev :: es) p →
      HostDecides own p (ev :: es)
  | earlier {ev : Event H} {es : List (Event H)} :
      HostDecides own p es → HostDecides own p (ev :: es)

theorem HostDecides.functions {own : FunctionRef → Prop} {p : PromiseRef} {es : List (Event H)}
    (h : ¬ HostDecides own p es) : ∀ ev ∈ es, ∀ f ∈ ev.move.functions, ¬ own f := by
  induction es with
  | nil => exact fun ev hev => by cases hev
  | cons last es ih =>
    exact List.forall_mem_cons.2 ⟨fun f hf hown => h (.callback hf hown),
      ih fun hearlier => h (.earlier hearlier)⟩

/-- A host that decides itself has named the promise, or a function. -/
theorem HostDecides.named {own : FunctionRef → Prop} {p : PromiseRef} {es : List (Event H)}
    (h : HostDecides own p es) :
    ∃ ev ∈ es, p ∈ ev.move.settles ∨ p ∈ ev.move.entrusts ∨ ev.move.functions ≠ [] := by
  induction h with
  | operation hr hp => exact ⟨_, List.mem_cons_self, .inl hp⟩
  | callback hf => exact ⟨_, List.mem_cons_self, .inr (.inr (List.ne_nil_of_mem hf))⟩
  | means hr hp hcall he =>
    obtain ⟨ev, hev, hp⟩ := he
    exact ⟨ev, hev, .inr (.inl hp)⟩
  | earlier _ ih =>
    obtain ⟨ev, hev, hnamed⟩ := ih
    exact ⟨ev, List.mem_cons_of_mem _ hev, hnamed⟩

/-- A host that names neither the promise nor functions does not decide. -/
theorem not_hostDecides {own : FunctionRef → Prop} {p : PromiseRef} {es : List (Event H)}
    (h : ∀ ev ∈ es, p ∉ ev.move.settles ∧ p ∉ ev.move.entrusts ∧ ev.move.functions = []) :
    ¬ HostDecides own p es := by
  intro hp
  obtain ⟨ev, hev, hnamed⟩ := hp.named
  obtain ⟨hsettles, hentrusts, hfunctions⟩ := h ev hev
  rcases hnamed with hnamed | hnamed | hnamed
  · exact hsettles hnamed
  · exact hentrusts hnamed
  · exact hnamed hfunctions

/-! ## Open results -/

section Open

variable {w w' : World H} {m : Move H} {es : List (Event H)} {p : PromiseRef}
  {own : FunctionRef → Prop}

/-- Nothing has decided about the promise, and nothing but the functions will. -/
structure World.Open (w : World H) (es : List (Event H)) (p : PromiseRef)
    (own : FunctionRef → Prop) : Prop where
  allocated : p.index < w.config.engine.promises.size
  unresolved : (w.config.engine.promise p).resolved = false
  reserved : w.Reserved es p none own
  functions : ∀ f, own f → f.index < w.config.engine.callables.size

theorem World.Open.pending (h : w.Open es p own) (hrun : Run es w) :
    (w.config.engine.promise p).state = .pending :=
  ((Run.exclusive hrun).lawful.sane p).pending h.unresolved

/-- **A result stays open** unless one of the functions is called, or the host interferes. -/
theorem Step.open_of_passing (h : Step w m w') (hm : m.Lossless) (hrun : Run es w)
    (hw : w.Open es p own) (hcall : ∀ f ∈ w.config.control.callee?, ¬ own f)
    (hhost : ¬ HostDecides own p (⟨w, m⟩ :: es)) :
    w'.Open (⟨w, m⟩ :: es) p own := by
  have hbacked := Run.backed hrun
  have hgrows := h.grows hbacked
  have hfree : ∀ g d, (g, some d) ∈ w.drives m → d.answers? ≠ some p := by
    intro g d hx hd
    obtain hnone | ⟨f, -, rfl⟩ := hw.reserved.eq_holder hx hd
    · cases hnone
    · cases hd
      exact Nat.lt_irrefl _ hw.allocated
  have hacts := h.acts_idle hm hbacked hw.reserved hw.allocated hw.functions hfree hcall
    (fun f hf hown => hhost (.callback hf hown)) nofun fun hres htarget =>
      ⟨fun hop => hhost (.operation hres hop), fun he => hhost (.means hres htarget hcall he)⟩
  obtain ⟨hreserved, hres⟩ := hw.reserved.idle (Run.exclusive hrun).lawful hacts hw.allocated
    hw.unresolved
  exact ⟨hw.allocated.trans_le hgrows.promises, hres, hreserved,
    fun f hf => (hw.functions f hf).trans_le hgrows.callables⟩

/-! ## Calls of the functions -/

/-- A function that may be called repeatedly keeps its code. -/
theorem Step.does (h : Step w m w') (hbacked : w.config.engine.Backed) {f : FunctionRef}
    {c : Code H} (hf : f.index < w.config.engine.callables.size)
    (hd : w.config.engine.Does f c) : w'.config.engine.Does f c := by
  rw [Engine.Does, h.callable hbacked hf fun honce => by cases hd.1.symm.trans honce]
  exact hd

/-- A function that is called runs its code. -/
theorem Step.runs (h : Step w m w') {f : FunctionRef} {args : List Value} {k : Caller H}
    (hc : w.config.control = .call f args k) {c : Code H} (hd : w.config.engine.Does f c) :
    w' = ⟨w.config.engine.runCode args k c, w.held⟩ := by
  cases h with
  | tick c' held =>
    obtain ⟨e, control⟩ := c'
    cases hc
    have hcall : e.callFunction f args k = e.runCode args k c := by
      obtain ⟨hu, rfl⟩ : (e.callable f).usage = .repeatable ∧ (e.callable f).code = c := hd
      simp only [Engine.callFunction, hu]
    exact congrArg (World.mk · held) hcall
  | _ => cases hc

/-- **A function that decides settles the result** with what it is called with. -/
theorem Step.decided (h : Step w m w') (hrun : Run es w) (hw : w.Open es p own) {f : FunctionRef}
    {v : Value} {k : Caller H} (hc : w.config.control = .call f [v] k) {kind : Settling}
    (hd : w.config.engine.Does f (kind.code p)) (hv : kind = .fulfill → ∀ q, v ≠ .promise q) :
    (w'.config.engine.promise p).state = kind.state v := by
  obtain rfl := h.runs hc hd
  have hengine : (w.config.engine.runCode [v] k (kind.code p)).engine =
      w.config.engine.settle p kind v := by
    cases kind <;> rfl
  show ((w.config.engine.runCode [v] k (kind.code p)).engine.promise p).state = _
  rw [hengine]
  exact (Engine.settle_pending hw.unresolved (hw.pending hrun) hv).1

end Open

/-! ## First calls -/

/-- The function is called with the arguments before any of the given ones is called. -/
def CalledFirst (es : List (Event H)) (among : FunctionRef → Prop) (f : FunctionRef)
    (args : List Value) : Prop :=
  ∃ later ev earlier k, es = later ++ ev :: earlier ∧
    ev.before.config.control = .call f args k ∧ ∀ g args', among g → ¬ Called earlier g args'

theorem CalledFirst.later {es : List (Event H)} {among : FunctionRef → Prop} {f : FunctionRef}
    {args : List Value} (h : CalledFirst es among f args) (ev : Event H) :
    CalledFirst (ev :: es) among f args := by
  obtain ⟨later, ev', earlier, k, rfl, hc, hfirst⟩ := h
  exact ⟨ev :: later, ev', earlier, k, rfl, hc, hfirst⟩

theorem CalledFirst.of_among {es : List (Event H)} {among among' : FunctionRef → Prop}
    {f : FunctionRef} {args : List Value} (h : CalledFirst es among f args)
    (hle : ∀ g, among' g → among g) : CalledFirst es among' f args := by
  obtain ⟨later, ev, earlier, k, hes, hc, hfirst⟩ := h
  exact ⟨later, ev, earlier, k, hes, hc, fun g args' hg => hfirst g args' (hle g hg)⟩

/-- The callbacks of listeners that decide. -/
def Decisive (decides : Settling → Bool) (xs : List Listener) (f : FunctionRef) : Prop :=
  ∃ x ∈ xs, ∃ kind, decides kind = true ∧ f = x.handler kind

/-- The result has been decided by the settlement of the listener whose callback was called
first, among those that decide. -/
def World.DecidedBy (w : World H) (es : List (Event H)) (p : PromiseRef)
    (decides : Settling → Bool) (xs : List Listener) : Prop :=
  ∃ x ∈ xs, ∃ kind v, decides kind = true ∧
    CalledFirst es (Decisive decides xs) (x.handler kind) [v] ∧
    (w.config.engine.promise x.input).state = kind.state v ∧
    (w.config.engine.promise p).state = kind.state v

theorem Step.decidedBy {w w' : World H} {m : Move H} {es : List (Event H)} {p : PromiseRef}
    {decides : Settling → Bool} {xs : List Listener} (h : Step w m w') (hw : w.Lawful)
    (hd : w.DecidedBy es p decides xs) : w'.DecidedBy (⟨w, m⟩ :: es) p decides xs := by
  obtain ⟨x, hx, kind, v, hkind, hfirst, hinput, hresult⟩ := hd
  exact ⟨x, hx, kind, v, hkind, hfirst.later _, h.keeps_state hw hinput, h.keeps_state hw hresult⟩

end Microtask
