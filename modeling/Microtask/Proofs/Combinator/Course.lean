import Microtask.Proofs.Combinator.Verdict

/-!
# The course of a combinator

From its set-up on a combinator is undecided (`World.Undecided`): its result is open, and no
callback that decides has been called yet. Every step leaves it so, or it calls a callback that
decides, or one that reports (`Step.undecided`). The tally of a collection tells which reports
have come in (`World.Tallied`), and the report that fills the last slot decides the result by
what all elements have been settled with (`World.Announced`).

Main statement: `Steps.collecting`.
-/

namespace Microtask

variable {H : Type}

section Course

variable {w w' : World H} {m : Move H} {es since : List (Event H)} {p : PromiseRef}
  {own : FunctionRef → Prop} {decides : Settling → Bool} {xs : List Listener}

/-! ## Undecided results -/

/-- The result is open, and no callback that decides has been called since the set-up. -/
structure World.Undecided (w : World H) (es since : List (Event H)) (p : PromiseRef)
    (own : FunctionRef → Prop) (decides : Settling → Bool) (xs : List Listener) : Prop where
  result : w.Open es p own
  confines : w.Confines own xs
  owns : ∀ x ∈ xs, ∀ kind, own (x.handler kind)
  does : ∀ x ∈ xs, ∀ kind, decides kind = true →
    w.config.engine.Does (x.handler kind) (kind.code p)
  uncalled : ∀ f args, Decisive decides xs f → ¬ Called since f args

/-- What has been set up is undecided. -/
theorem World.Makes.undecided {k : Combinator} {items : List Value} (hmakes : w.Makes m w' k items)
    (h : Run es w) (hs : Step w m w')
    (hc : w.config.engine.Combines w'.config.engine decides items xs) :
    w'.Undecided (⟨w, m⟩ :: es) [] ⟨w.config.engine.promises.size⟩ (w.Made w') decides xs where
  result := ⟨hc.result, hc.unresolved, hmakes.reserved h hs hc, fun _ hf => hf.2⟩
  confines := hmakes.confines h hs hc
  owns := hc.handlers
  does := hc.decides
  uncalled := by
    rintro f args - ⟨ev, hev, -⟩
    cases hev

/-- A callback of the listeners is being called that does not decide. -/
def World.Reports (w : World H) (decides : Settling → Bool) (xs : List Listener) (x : Listener)
    (kind : Settling) (v : Value) (k : Caller H) : Prop :=
  x ∈ xs ∧ decides kind = false ∧ w.config.control = .call (x.handler kind) [v] k ∧
    (w.config.engine.promise x.input).state = kind.state v

/-- The function that an event calls, or one that has been called before. -/
theorem Called.cases {f : FunctionRef} {args : List Value} (h : Called (⟨w, m⟩ :: since) f args) :
    (∃ k, w.config.control = .call f args k) ∨ Called since f args := by
  obtain ⟨ev, hev, k, hc⟩ := h
  rcases List.mem_cons.1 hev with rfl | hev
  · exact .inl ⟨k, hc⟩
  · exact .inr ⟨ev, hev, k, hc⟩

/-- The functions do what they did, and are confined as before. -/
theorem Step.undecided_of_open (h : Step w m w') (hm : m.Lossless) (hrun : Run es w)
    (hw : w.Undecided es since p own decides xs) (hhost : ¬ HostDecides own p (⟨w, m⟩ :: es))
    (hopen : w'.Open (⟨w, m⟩ :: es) p own)
    (hcall : ∀ f ∈ w.config.control.callee?, ¬ Decisive decides xs f) :
    w'.Undecided (⟨w, m⟩ :: es) (⟨w, m⟩ :: since) p own decides xs where
  result := hopen
  confines := h.confines hm.clears hrun.lawful
    (HostDecides.functions hhost ⟨w, m⟩ List.mem_cons_self) hw.confines
  owns := hw.owns
  does x hx kind hkind := h.does (Run.backed hrun)
    (hw.result.functions _ (hw.owns x hx kind)) (hw.does x hx kind hkind)
  uncalled f args hf hcalled := by
    rcases hcalled.cases with ⟨k, hc⟩ | hcalled
    · exact hcall f (by rw [hc]; rfl) hf
    · exact hw.uncalled f args hf hcalled

/-- **A step leaves a combinator undecided**, or it calls a callback that decides, or one that
reports. -/
theorem Step.undecided (h : Step w m w') (hm : m.Lossless) (hrun : Run es w)
    (hw : w.Undecided es since p own decides xs) (hhost : ¬ HostDecides own p (⟨w, m⟩ :: es))
    (hv : decides .fulfill = true → ∀ x ∈ xs, ∀ q,
      (w.config.engine.promise x.input).state ≠ .fulfilled (.promise q)) :
    (w'.Undecided (⟨w, m⟩ :: es) (⟨w, m⟩ :: since) p own decides xs ∧
        ∀ f ∈ w.config.control.callee?, ¬ own f) ∨
      w'.DecidedBy (⟨w, m⟩ :: since) p decides xs ∨
      ∃ x kind v k, w.Reports decides xs x kind v k := by
  by_cases hcall : ∀ f ∈ w.config.control.callee?, ¬ own f
  · have hopen := h.open_of_passing hm hrun hw.result hcall hhost
    refine .inl ⟨h.undecided_of_open hm hrun hw hhost hopen fun f hf => ?_, hcall⟩
    rintro ⟨x, hx, kind, -, rfl⟩
    exact hcall _ hf (hw.owns x hx kind)
  · right
    push Not at hcall
    obtain ⟨f, hf, hown⟩ := hcall
    obtain ⟨args, k, hc⟩ := Control.exists_callee hf
    obtain ⟨v, rfl, x, hx, kind, rfl, hstate⟩ := hw.confines.call f args k hc hown
    cases hkind : decides kind with
    | false => exact .inr ⟨x, kind, v, k, hx, hkind, hc, hstate⟩
    | true =>
      left
      have hvalue : kind = .fulfill → ∀ q, v ≠ .promise q := by
        rintro rfl q rfl
        exact hv hkind x hx q hstate
      have hresult := h.decided hrun hw.result hc (hw.does x hx kind hkind) hvalue
      refine ⟨x, hx, kind, v, hkind, ⟨[], _, since, k, rfl, hc, fun g args' hg =>
        hw.uncalled g args' hg⟩, ?_, hresult⟩
      exact (((h.lawful hrun.lawful).2 x.input).settled
        (hstate ▸ kind.state_ne_pending v)).trans hstate

/-! ## Counting reports -/

variable {c : Collection} {t : TallyRef}

/-- The content of a slot tells how the promise of the listener has been settled. -/
def World.Contributes (w : World H) (since : List (Event H)) (c : Collection) (x : Listener)
    (content : Value) : Prop :=
  ∃ kind v, c.decides kind = false ∧ (w.config.engine.promise x.input).state = kind.state v ∧
    c.Content (w.Shows since) kind v content

/-- The result has been decided by what all elements have been settled with. -/
def World.Announced (w : World H) (since : List (Event H)) (p : PromiseRef) (c : Collection)
    (xs : List Listener) : Prop :=
  ∃ contents, List.Forall₂ (w.Contributes since c) xs contents ∧
    c.Announces (w.Shows since) (w.config.engine.promise p).state contents

/-- The tally of an open result has a slot for each listener, which is empty until one of the
callbacks that report has been called, and some slot is empty. -/
structure World.Tallied (w : World H) (since : List (Event H)) (t : TallyRef) (p : PromiseRef)
    (c : Collection) (xs : List Listener) : Prop where
  reporters : w.config.engine.Reporters t c xs
  result : (w.config.engine.tally t).result = p
  length : (w.config.engine.tally t).slots.length = xs.length
  outstanding : (w.config.engine.tally t).outstanding =
    (w.config.engine.tally t).slots.count none
  lacking : 0 < (w.config.engine.tally t).outstanding
  codes : ∀ (i : Nat) (x : Listener), xs[i]? = some x → ∀ kind, c.decides kind = false →
    (w.config.engine.callable (x.handler kind)).code = .report t i kind
  vacant : ∀ (i : Nat) (x : Listener), xs[i]? = some x →
    (w.config.engine.tally t).slots[i]? = some none → ∀ kind args, c.decides kind = false →
      ¬ Called since (x.handler kind) args
  filled : ∀ (i : Nat) (x : Listener) (content : Value), xs[i]? = some x →
    (w.config.engine.tally t).slots[i]? = some (some content) → w.Contributes since c x content

theorem World.Tallied.code_later (ht : w.Tallied since t p c xs) (h : Step w m w')
    (hrun : Run es w) (hw : w.Undecided es since p own c.decides xs) {i : Nat} {x : Listener}
    (hx : xs[i]? = some x) {kind : Settling} (hkind : c.decides kind = false) :
    (w'.config.engine.callable (x.handler kind)).code = .report t i kind :=
  ((h.grows (Run.backed hrun)).code _ (hw.result.functions _
    (hw.owns x (List.mem_of_getElem? hx) kind))).trans (ht.codes i x hx kind hkind)

theorem Step.contributes (h : Step w m w') (hm : m.clears = false) (hw : w.Lawful) {x : Listener}
    {content : Value} (hx : w.Contributes since c x content) :
    w'.Contributes (⟨w, m⟩ :: since) c x content := by
  obtain ⟨kind, v, hkind, hstate, hcontent⟩ := hx
  exact ⟨kind, v, hkind, h.keeps_state hw hstate, hcontent.mono fun _ _ hs => h.shows hm hw.1 hs⟩

/-- What has been announced stays so. -/
theorem Step.announced (h : Step w m w') (hm : m.clears = false) (hw : w.Lawful)
    (ha : w.Announced since p c xs) : w'.Announced (⟨w, m⟩ :: since) p c xs := by
  obtain ⟨contents, hall, hannounces⟩ := ha
  refine ⟨contents, hall.imp fun _ _ hx => h.contributes hm hw hx, ?_⟩
  rw [((h.lawful hw).2 p).settled hannounces.state_ne_pending]
  exact hannounces.mono fun _ _ hs => h.shows hm hw.1 hs

/-- **A step that calls none of the callbacks leaves the tally as it is.** -/
theorem Step.tallied_of_passing (h : Step w m w') (hm : m.Lossless) (hrun : Run es w)
    (hw : w.Undecided es since p own c.decides xs) (ht : w.Tallied since t p c xs)
    (hcall : ∀ f ∈ w.config.control.callee?, ¬ own f) :
    w'.Tallied (⟨w, m⟩ :: since) t p c xs := by
  have hquiet : t ∉ w.config.control.tally? w.config.engine := by
    intro hmem
    obtain ⟨f, args, k, i, kind, hc, hcode⟩ := Control.call_of_mem_tally? hmem
    obtain ⟨-, x, hx, rfl⟩ := ht.reporters.handlers f i kind hcode
    exact hcall _ (by rw [hc]; rfl) (hw.owns x (List.mem_of_getElem? hx) kind)
  have hsame := h.tally (Run.backed hrun) ht.reporters.allocated hquiet
  constructor
  case reporters => exact h.reporters (Run.backed hrun) ht.reporters
  case codes => exact fun i x hx kind hkind => ht.code_later h hrun hw hx hkind
  case vacant =>
    rw [hsame]
    intro i x hx hslot kind args hkind hcalled
    rcases hcalled.cases with ⟨k, hc⟩ | hcalled
    · exact hcall (x.handler kind) (by rw [hc]; rfl) (hw.owns x (List.mem_of_getElem? hx) kind)
    · exact ht.vacant i x hx hslot kind args hkind hcalled
  case filled =>
    rw [hsame]
    exact fun i x content hx hslot => h.contributes hm.clears hrun.lawful (ht.filled i x content hx hslot)
  all_goals rw [hsame]
  case result => exact ht.result
  case length => exact ht.length
  case outstanding => exact ht.outstanding
  case lacking => exact ht.lacking

/-! ## A report -/

/-- A call that only counts a report leaves the result open. -/
theorem Step.open_of_counted (h : Step w m w') (hm : m.Lossless) (hrun : Run es w)
    (hw : w.Open es p own) {f : FunctionRef} {args : List Value} {k : Caller H}
    (hc : w.config.control = .call f args k) {i : Nat} {kind : Settling}
    (hcode : (w.config.engine.callable f).code = .report t i kind) {objects : Store Object}
    {callables : Store (Callable H)} {tallies : Store Tally} {result : Except Failure Value}
    (hw' : w' = ⟨⟨{ w.config.engine with objects, callables, tallies }, .deliver result k⟩, w.held⟩)
    (hcodes : ∀ g, (w'.config.engine.callable g).code = (w.config.engine.callable g).code)
    (hsize : tallies.size = w.config.engine.tallies.size) :
    w'.Open (⟨w, m⟩ :: es) p own := by
  have hbacked := Run.backed hrun
  have hgrows := h.grows hbacked
  have hissued : requestsIn (⟨w, m⟩ :: es) = requestsIn es := by
    refine World.issued_eq ?_ w _
    cases h with
    | tick => rfl
    | _ => cases hc
  have hdrives : w.drives m = [] := by
    cases h with
    | tick c held =>
      obtain ⟨e, control⟩ := c
      cases hc
      have hcode : (e.callable f).code = .report t i kind := hcode
      simp only [World.drives, Control.drives, hcode, Code.drives]
    | _ => cases hc
  refine ⟨hw.allocated.trans_le hgrows.promises, ?_, ⟨fun hmeans => ?_, fun d hd hne => ?_,
    fun a r hr => ?_⟩, fun g hg => (hw.functions g hg).trans_le hgrows.callables⟩
  · rw [hw']
    exact hw.unresolved
  · -- what waits for the call waits for its result
    refine (hw.reserved.means ?_).later _
    rw [hw'] at hgrows hcodes
    rw [hissued, hw'] at hmeans
    refine hmeans.rearrange hcodes (fun u hu => ?_) (fun _ _ => rfl)
      (fun j hj hK hcap => .job hK hj hcap) fun d hd hsettles => .duty ?_ hsettles
    · have hu' : u.index < w.config.engine.tallies.size := hsize ▸ hu
      exact ⟨hu', hgrows.result u hu'⟩
    · have hstack : (w.ledger (requestsIn es)).stack = k.duties := by
        show w.config.control.duties = _
        rw [hc]
        rfl
      exact hstack ▸ hd
  · have hpasses := h.passes hm hbacked (Run.exclusive hrun).lawful (Duty.ofStep_of_answers hd)
      (by rw [hdrives]; exact List.forall_mem_nil _)
    exact hpasses.1.owed.trans (hw.reserved.owed d hd hne)
  · rw [hw'] at hr
    exact hw.reserved.queued a r hr

/-- The slot of an element gets a content. -/
theorem World.Tallied.slots_fill (ht : w.Tallied since t p c xs) {i : Nat}
    (hslot : (w.config.engine.tally t).slots[i]? = some none) (content : Value) :
    ((w.config.engine.tally t).slots.set i (some content)).count none =
      (w.config.engine.tally t).outstanding - 1 := by
  obtain ⟨hi, hnone⟩ := List.getElem?_eq_some_iff.1 hslot
  rw [List.count_set hi, hnone, ht.outstanding]
  rfl

/-- The slots but one are filled, when one report is to come. -/
theorem World.Tallied.filled_of_last (ht : w.Tallied since t p c xs)
    (hlast : (w.config.engine.tally t).outstanding = 1) {i j : Nat}
    (hslot : (w.config.engine.tally t).slots[i]? = some none) (hne : j ≠ i) {x : Listener}
    (hx : xs[j]? = some x) (hj : j < (w.config.engine.tally t).slots.length) :
    w.Contributes since c x ((w.config.engine.tally t).slots[j].getD .undefined) := by
  obtain ⟨i₀, _, -, -, hunique⟩ := exists_index_of_countP_eq_one (ht.outstanding.symm.trans hlast)
  have hget := List.getElem?_eq_getElem hj
  cases hs : (w.config.engine.tally t).slots[j] with
  | none =>
    rw [hs] at hget
    exact absurd ((hunique j none hget rfl).trans (hunique i none hslot rfl).symm) hne
  | some content =>
    rw [hs] at hget
    exact ht.filled j x content hx hget

section Report

variable {i : Nat} {x : Listener} {kind : Settling} {v : Value} {k : Caller H}
  (hw : w.Undecided es since p own c.decides xs) (ht : w.Tallied since t p c xs)
  (hi : xs[i]? = some x) (hreports : w.Reports c.decides xs x kind v k)
include ht hi hreports

theorem World.Reports.code : (w.config.engine.callable (x.handler kind)).code = .report t i kind :=
  ht.codes i x hi kind hreports.2.1

theorem World.Reports.callee {f : FunctionRef} (hf : f ∈ w.config.control.callee?) :
    (w.config.engine.callable f).code = .report t i kind := by
  obtain ⟨-, -, hc, -⟩ := id hreports
  rw [hc] at hf
  cases hf
  exact hreports.code ht hi

/-- The callback that is called does not decide, as its code tells. -/
theorem World.Reports.indecisive (hw : w.Undecided es since p own c.decides xs) :
    ∀ f ∈ w.config.control.callee?, ¬ Decisive c.decides xs f := by
  rintro f hf ⟨y, hy, kind', hkind', rfl⟩
  have hcode := (hw.does y hy kind' hkind').2
  rw [hreports.callee ht hi hf] at hcode
  cases kind' <;> cases hcode

/-- It is none of those of other elements. -/
theorem World.Reports.uncalled {j : Nat} {y : Listener} (hy : xs[j]? = some y) (hne : j ≠ i)
    {kind' : Settling} {args : List Value} (hkind' : c.decides kind' = false)
    (hnot : ¬ Called since (y.handler kind') args) :
    ¬ Called (⟨w, m⟩ :: since) (y.handler kind') args := by
  intro hcalled
  rcases hcalled.cases with ⟨k', hc'⟩ | hcalled
  · have hcode := ht.codes j y hy kind' hkind'
    rw [hreports.callee ht hi (by rw [hc']; rfl)] at hcode
    cases hcode
    exact hne rfl
  · exact hnot hcalled

include hw in
/-- The tally after a report, where the other slots are as before. -/
theorem Step.tallied_of_report (h : Step w m w') (hm : m.Lossless) (hrun : Run es w) {r : Tally}
    (htally : w'.config.engine.tally t = r) (hresult : r.result = p)
    (hlength : r.slots.length = xs.length)
    (hcount : r.outstanding = r.slots.count none) (hlacking : 0 < r.outstanding)
    (hslots : ∀ (j : Nat) (slot : Option Value), r.slots[j]? = some slot →
      j ≠ i ∧ (w.config.engine.tally t).slots[j]? = some slot ∨
        j = i ∧ ∃ content, slot = some content ∧ w'.Contributes (⟨w, m⟩ :: since) c x content) :
    w'.Tallied (⟨w, m⟩ :: since) t p c xs := by
  subst htally
  refine ⟨h.reporters (Run.backed hrun) ht.reporters, hresult, hlength, hcount, hlacking,
    fun j y hy kind' hkind' => ht.code_later h hrun hw hy hkind', ?vacant, ?filled⟩
  case vacant =>
    intro j y hy hnone kind' args hkind'
    obtain ⟨hne, hnone⟩ | ⟨-, content, hsome, -⟩ := hslots j none hnone
    · exact hreports.uncalled ht hi hy hne hkind' (ht.vacant j y hy hnone kind' args hkind')
    · cases hsome
  case filled =>
    intro j y content hy hsome
    obtain ⟨-, hsome⟩ | ⟨rfl, content', heq, hcontent⟩ := hslots j (some content) hsome
    · exact h.contributes hm.clears hrun.lawful (ht.filled j y content hy hsome)
    · cases heq
      obtain rfl := Option.some.inj (hy.symm.trans hi)
      exact hcontent

end Report

/-- An object that has been made by the last step. -/
theorem World.shows_of_presents {y : Object} (hv : w'.config.engine.Presents v y) (ev : Event H)
    (since : List (Event H)) : w'.Shows (ev :: since) v y := by
  obtain ⟨o, rfl, ho, hy⟩ := hv
  exact ⟨o, rfl, ho, fun _ => hy⟩

section Reports

variable {i : Nat} {x : Listener} {kind : Settling} {v : Value} {k : Caller H}
  (h : Step w m w') (hm : m.Lossless) (hrun : Run es w)
  (hw : w.Undecided es since p own c.decides xs) (ht : w.Tallied since t p c xs)
  (hi : xs[i]? = some x) (hreports : w.Reports c.decides xs x kind v k)
include h hm hrun hw ht hi hreports

/-- The call for a slot that is filled changes nothing. -/
theorem Step.tallied_of_closed (hhost : ¬ HostDecides own p (⟨w, m⟩ :: es))
    (hw' : w' = ⟨⟨w.config.engine, .deliver (.ok .undefined) k⟩, w.held⟩)
    (hopen : (w.config.engine.tally t).isOpen i = false) :
    w'.Undecided (⟨w, m⟩ :: es) (⟨w, m⟩ :: since) p own c.decides xs ∧
      w'.Tallied (⟨w, m⟩ :: since) t p c xs := by
  obtain ⟨-, -, hc, -⟩ := id hreports
  have hopen' := h.open_of_counted hm hrun hw.result hc (hreports.code ht hi) hw'
    (fun _ => by rw [hw']) rfl
  have htally : w'.config.engine.tally t = w.config.engine.tally t := by rw [hw']
  refine ⟨h.undecided_of_open hm hrun hw hhost hopen' (hreports.indecisive ht hi hw),
    h.tallied_of_report hw ht hi hreports hm hrun htally ht.result ht.length ht.outstanding
      ht.lacking fun j slot hj => ?_⟩
  by_cases hij : j = i
  · subst hij
    cases slot with
    | none =>
      rw [(Tally.isOpen_iff _ _).2 hj] at hopen
      cases hopen
    | some content =>
      exact .inr ⟨rfl, content, rfl,
        h.contributes hm.clears hrun.lawful (ht.filled j x content hi hj)⟩
  · exact .inl ⟨hij, hj⟩

variable (hw' : w' = ⟨⟨(w.config.engine.used (x.handler kind)).report t i kind v,
    .deliver (.ok .undefined) k⟩, w.held⟩)
  (hopen : (w.config.engine.tally t).isOpen i = true)
include hw' hopen

/-- The report that fills the last slot announces the contents of all. -/
theorem Step.announced_of_last (hlast : (w.config.engine.tally t).outstanding = 1) :
    w'.Announced (⟨w, m⟩ :: since) p c xs := by
  obtain ⟨-, hkind, -, hstate⟩ := hreports
  let e := w.config.engine.used (x.handler kind)
  have htally : e.tally t = w.config.engine.tally t := w.config.engine.tally_used _ t
  have hpromise : e.promise p = w.config.engine.promise p := w.config.engine.promise_used _ p
  obtain ⟨content, hcontent, hannounces⟩ := Engine.report_last (e := e)
    (Tally.accepts_of_isOpen (htally ▸ hopen)) (htally ▸ hlast)
    (by rw [htally, ht.result, hpromise]; exact hw.result.unresolved)
    (by rw [htally, ht.result, hpromise]; exact hw.result.pending hrun) kind v
  have hengine : e.report t i kind v = w'.config.engine := by rw [hw']
  rw [htally, ht.reporters.collection, hengine] at hcontent hannounces
  rw [ht.result] at hannounces
  refine ⟨_, ?_, hannounces.mono fun _ _ hy => World.shows_of_presents hy _ _⟩
  refine List.forall₂_iff_get.2 ⟨?_, fun j hj hj' => ?_⟩
  · rw [Tally.values, Tally.fill, List.length_map, List.length_set, ht.length]
  · simp only [Tally.values, Tally.fill, List.get_eq_getElem, List.getElem_map, List.getElem_set]
    have hy : xs[j]? = some xs[j] := List.getElem?_eq_getElem hj
    split
    · next hij =>
      subst hij
      obtain rfl : xs[i] = x := Option.some.inj (hy.symm.trans hi)
      exact ⟨kind, v, hkind, h.keeps_state hrun.lawful hstate,
        hcontent.mono fun _ _ hz => World.shows_of_presents hz _ _⟩
    · next hij =>
      exact h.contributes hm.clears hrun.lawful (ht.filled_of_last hlast
        ((Tally.isOpen_iff _ _).1 hopen) (Ne.symm hij) hy (by rw [ht.length]; exact hj))

/-- One that leaves slots to be filled is counted. -/
theorem Step.tallied_of_open (hhost : ¬ HostDecides own p (⟨w, m⟩ :: es))
    (hlast : (w.config.engine.tally t).outstanding ≠ 1) :
    w'.Undecided (⟨w, m⟩ :: es) (⟨w, m⟩ :: since) p own c.decides xs ∧
      w'.Tallied (⟨w, m⟩ :: since) t p c xs := by
  obtain ⟨-, hkind, hc, hstate⟩ := id hreports
  let e := w.config.engine.used (x.handler kind)
  have htally : e.tally t = w.config.engine.tally t := w.config.engine.tally_used _ t
  have hslot := (Tally.isOpen_iff _ _).1 hopen
  obtain ⟨content, objects, heq, hcontent⟩ := Engine.report_counts (e := e)
    (Tally.accepts_of_isOpen (htally ▸ hopen)) (htally ▸ hlast) (htally ▸ ht.lacking.ne') kind v
  rw [htally, ht.reporters.collection, heq] at hcontent
  have hengine : e.report t i kind v =
      { w.config.engine with
        objects
        callables := e.callables
        tallies := w.config.engine.tallies.modify t.index fun r =>
          (r.fill i content).countDown } := by
    rw [heq, show e = _ from w.config.engine.used_eq _]
  rw [show (w.config.engine.used (x.handler kind)).report t i kind v = _ from hengine] at hw'
  have hsize : (w.config.engine.tallies.modify t.index fun r =>
      (r.fill i content).countDown).size = w.config.engine.tallies.size :=
    (Store.size_set ..).trans (max_eq_left ht.reporters.allocated)
  have hopen' := h.open_of_counted hm hrun hw.result hc (hreports.code ht hi) hw'
    (fun g => by rw [hw']; exact w.config.engine.code_used _ g) hsize
  have hafter : w'.config.engine.tally t =
      ((w.config.engine.tally t).fill i content).countDown := by
    rw [hw']
    exact (Store.get_modify ..).trans (if_pos rfl)
  refine ⟨h.undecided_of_open hm hrun hw hhost hopen' (hreports.indecisive ht hi hw),
    h.tallied_of_report hw ht hi hreports hm hrun hafter ht.result
      ((List.length_set ..).trans ht.length) (ht.slots_fill hslot content).symm ?_
      fun j slot hj => ?_⟩
  · have hlacking := ht.lacking
    show 0 < (w.config.engine.tally t).outstanding - 1
    omega
  · replace hj : ((w.config.engine.tally t).slots.set i (some content))[j]? = some slot := hj
    rw [List.getElem?_set] at hj
    split at hj
    · next hij =>
      split at hj
      · cases hj
        refine .inr ⟨hij.symm, content, rfl, kind, v, hkind, h.keeps_state hrun.lawful hstate,
          hcontent.mono fun u z hz => World.shows_of_presents ?_ _ _⟩
        rw [hw']
        exact hz.of_objects rfl
      · cases hj
    · next hij => exact .inl ⟨Ne.symm hij, hj⟩

end Reports

/-- **A report fills the slot of its element.** The one that fills the last slot decides. -/
theorem Step.reports (h : Step w m w') (hm : m.Lossless) (hrun : Run es w)
    (hw : w.Undecided es since p own c.decides xs) (ht : w.Tallied since t p c xs)
    (hhost : ¬ HostDecides own p (⟨w, m⟩ :: es)) {x : Listener} {kind : Settling} {v : Value}
    {k : Caller H} (hreports : w.Reports c.decides xs x kind v k) :
    w'.Undecided (⟨w, m⟩ :: es) (⟨w, m⟩ :: since) p own c.decides xs ∧
        w'.Tallied (⟨w, m⟩ :: since) t p c xs ∨
      w'.Announced (⟨w, m⟩ :: since) p c xs := by
  obtain ⟨hx, hkind, hc, -⟩ := id hreports
  obtain ⟨i, hi⟩ := List.mem_iff_getElem?.1 hx
  have hw' := h.reported ht.reporters hc (ht.codes i x hi kind hkind)
  cases hopen : (w.config.engine.tally t).isOpen i with
  | true =>
    rw [if_pos hopen] at hw'
    by_cases hlast : (w.config.engine.tally t).outstanding = 1
    · exact .inr (h.announced_of_last hm hrun hw ht hi hreports hw' hopen hlast)
    · exact .inl (h.tallied_of_open hm hrun hw ht hi hreports hw' hopen hhost hlast)
  | false =>
    rw [if_neg (Bool.eq_false_iff.1 hopen)] at hw'
    exact .inl (h.tallied_of_closed hm hrun hw ht hi hreports hhost hw' hopen)

/-! ## Courses -/

/-- The result of a collection is undecided, or it has been decided by an element, or by all of
them together. -/
inductive World.Course (w : World H) (es since : List (Event H)) (t : TallyRef) (p : PromiseRef)
    (own : FunctionRef → Prop) (c : Collection) (xs : List Listener) : Prop where
  | undecided : w.Undecided es since p own c.decides xs → w.Tallied since t p c xs →
      Course w es since t p own c xs
  | decided : w.DecidedBy since p c.decides xs → Course w es since t p own c xs
  | announced : w.Announced since p c xs → Course w es since t p own c xs

/-- **A step takes a collection on in its course.** -/
theorem Step.course (h : Step w m w') (hm : m.Lossless) (hrun : Run es w)
    (hhost : ¬ HostDecides own p (⟨w, m⟩ :: es))
    (hv : c.decides .fulfill = true → ∀ x ∈ xs, ∀ q,
      (w.config.engine.promise x.input).state ≠ .fulfilled (.promise q))
    (hw : w.Course es since t p own c xs) :
    w'.Course (⟨w, m⟩ :: es) (⟨w, m⟩ :: since) t p own c xs := by
  cases hw with
  | undecided hw ht =>
    obtain ⟨hw', hcall⟩ | hdecided | ⟨x, kind, v, k, hreports⟩ := h.undecided hm hrun hw hhost hv
    · exact .undecided hw' (h.tallied_of_passing hm hrun hw ht hcall)
    · exact .decided hdecided
    · rcases h.reports hm hrun hw ht hhost hreports with ⟨hw', ht'⟩ | hannounced
      · exact .undecided hw' ht'
      · exact .announced hannounced
  | decided hd => exact .decided (h.decidedBy hrun.lawful hd)
  | announced ha => exact .announced (h.announced hm.clears hrun.lawful ha)

/-- In the end an input has been fulfilled with a promise if it ever was. -/
theorem Steps.not_fulfilled_before (h : Steps w since w') (hw : w.Lawful) {p : PromiseRef}
    (hp : ∀ q, (w'.config.engine.promise p).state ≠ .fulfilled (.promise q)) (q : PromiseRef) :
    (w.config.engine.promise p).state ≠ .fulfilled (.promise q) := by
  intro hq
  have hkeep := h.relate (R := fun a b => (a.config.engine.promise p).state ≠ .pending →
      (b.config.engine.promise p).state = (a.config.engine.promise p).state) (fun _ _ => rfl)
    (fun hab hbc ha => (hbc (by rw [hab ha]; exact ha)).trans (hab ha))
    (fun hs hw => ⟨(hs.lawful hw).1, ((hs.lawful hw).2 p).settled⟩) hw
  exact hp q ((hkeep (by rw [hq]; nofun)).trans hq)

/-- **The course of a collection**, from any point of a run. -/
theorem Steps.collecting (hrun : Run es w) (h : Steps w since w')
    (hes : ∀ ev ∈ since, ev.move.Lossless) (hhost : ¬ HostDecides own p (since ++ es))
    (hv : c.decides .fulfill = true → ∀ x ∈ xs, ∀ q,
      (w'.config.engine.promise x.input).state ≠ .fulfilled (.promise q))
    (hw : w.Course es [] t p own c xs) : w'.Course (since ++ es) since t p own c xs := by
  induction h with
  | refl => exact hw
  | @step since w₁ w' m h hs ih =>
    obtain ⟨hm, hes⟩ := List.forall_mem_cons.1 hes
    have hrun₁ : Run (since ++ es) w₁ := hrun.trans h
    have hv₁ : c.decides .fulfill = true → ∀ x ∈ xs, ∀ q,
        (w₁.config.engine.promise x.input).state ≠ .fulfilled (.promise q) := fun hd x hx =>
      (Steps.refl.step hs).not_fulfilled_before hrun₁.lawful (hv hd x hx)
    exact hs.course hm hrun₁ hhost hv₁ (ih hes (fun hearlier => hhost (.earlier hearlier)) hv₁)

end Course

end Microtask
