import Microtask.Proofs.Play
import Microtask.Proofs.Generator.Passing

/-!
# The protocol of frames

The frame of a generator is resumed, and it answers with an outcome, or it is lost with
everything that is under way. The engine keeps to a protocol: the first completion is a
normal one, the frame is not resumed while it runs, and not after an outcome that is final.
The protocol is an automaton (`FramePhase.next`) that reads the log of a frame.

A step of the generator that is under way has the frame, and then the generator is not
suspended (`Stage.Ready`). This holds whatever the frame does to its own generator in the
meantime, and so the phase of the frame is known from the state of the generator and the
control stack (`World.Phased`).

Main statement: `Run.frame_protocol`.
-/

namespace Microtask

variable {H : Type}

/-! ## The protocol -/

/-- What happens to the frame of a generator. -/
inductive FrameEvent where
  | resumed (c : Completion)
  | answered (o : Outcome)
  /-- It was running when everything under way was abandoned. -/
  | lost
  deriving DecidableEq, Repr

inductive FramePhase where
  | fresh
  | running
  | paused
  | finished
  deriving DecidableEq, Repr

namespace FramePhase

/-- The phase after an event that the protocol allows. -/
def next : FramePhase → FrameEvent → Option FramePhase
  | fresh, .resumed c => if c.isAbrupt then none else some running
  | paused, .resumed _ => some running
  | running, .answered o => some (if o.isFinished then finished else paused)
  | running, .lost => some finished
  | _, _ => none

/-- The phase after the events of a log. -/
def reads (p : FramePhase) (log : List FrameEvent) : Option FramePhase := log.foldlM next p

variable {p q : FramePhase} {log log' : List FrameEvent} {ev : FrameEvent}

theorem reads_append (p : FramePhase) (log log' : List FrameEvent) :
    p.reads (log ++ log') = (p.reads log).bind (·.reads log') :=
  List.foldlM_append

theorem reads_cons (p : FramePhase) (ev : FrameEvent) (log : List FrameEvent) :
    p.reads (ev :: log) = (p.next ev).bind (·.reads log) := rfl

/-- The phase in the middle of a log. -/
theorem exists_reads (h : p.reads (log ++ ev :: log') = some q) :
    ∃ q₁ q₂, p.reads log = some q₁ ∧ q₁.next ev = some q₂ ∧ q₂.reads log' = some q := by
  rw [reads_append] at h
  obtain ⟨q₁, h₁, h⟩ := Option.bind_eq_some_iff.1 h
  rw [reads_cons] at h
  obtain ⟨q₂, h₂, h⟩ := Option.bind_eq_some_iff.1 h
  exact ⟨q₁, q₂, h₁, h₂, h⟩

/-- A log ends with the event that has led to the phase. -/
theorem reads_last (h : p.reads log = some q) :
    log = [] ∧ q = p ∨ ∃ log' ev q', log = log' ++ [ev] ∧ p.reads log' = some q' ∧
      q'.next ev = some q := by
  rcases List.eq_nil_or_concat log with rfl | ⟨log', ev, rfl⟩
  · exact .inl ⟨rfl, (Option.some.inj h).symm⟩
  · rw [List.concat_eq_append] at h ⊢
    obtain ⟨q₁, q₂, h₁, h₂, hq⟩ := exists_reads h
    cases hq
    exact .inr ⟨log', ev, q₁, rfl, h₁, h₂⟩

theorem next_ne_fresh (p : FramePhase) (ev : FrameEvent) : p.next ev ≠ some fresh := by
  cases p <;> cases ev <;> simp only [next] <;> (try split) <;> nofun

/-- **A frame is resumed** for the first time, with a normal completion, or after an
outcome that is not final. -/
theorem resumed_cases {c : Completion} (h : fresh.reads (log ++ .resumed c :: log') = some q) :
    log = [] ∧ c.isAbrupt = false ∨
      ∃ before o, log = before ++ [.answered o] ∧ o.isFinished = false := by
  obtain ⟨q₁, q₂, h₁, h₂, -⟩ := exists_reads h
  cases q₁ with
  | fresh =>
    rcases reads_last h₁ with ⟨hnil, -⟩ | ⟨log', ev, q', -, -, hev⟩
    · refine .inl ⟨hnil, ?_⟩
      cases hc : c.isAbrupt with
      | false => rfl
      | true => simp [next, hc] at h₂
    · exact absurd hev (next_ne_fresh q' ev)
  | paused =>
    rcases reads_last h₁ with ⟨-, hq⟩ | ⟨log', ev, q', hlog, -, hev⟩
    · cases hq
    · refine .inr ⟨log', ?_⟩
      cases q' <;> cases ev <;> simp only [next] at hev
      case running.answered o =>
        cases ho : o.isFinished with
        | false => exact ⟨o, hlog, ho⟩
        | true => simp [ho] at hev
      all_goals simp at hev
  | running | finished => cases h₂

/-- **A frame answers** when it has been resumed, and a final outcome is its last event. -/
theorem answered_cases {o : Outcome} (h : fresh.reads (log ++ .answered o :: log') = some q) :
    (∃ before c, log = before ++ [.resumed c]) ∧ (o.isFinished = true → log' = []) := by
  obtain ⟨q₁, q₂, h₁, h₂, hq⟩ := exists_reads h
  cases q₁ with
  | running =>
    refine ⟨?_, fun ho => ?_⟩
    · rcases reads_last h₁ with ⟨-, hq⟩ | ⟨before, ev, q', hlog, -, hev⟩
      · cases hq
      · cases ev with
        | resumed c => exact ⟨before, c, hlog⟩
        | answered o =>
          cases q' <;> simp only [next] at hev
          case running => split at hev <;> cases hev
          all_goals cases hev
        | lost => cases q' <;> cases hev
    · obtain rfl : finished = q₂ := by simpa [next, ho] using h₂
      cases log' with
      | nil => rfl
      | cons ev log' =>
        rw [reads_cons] at hq
        cases ev <;> cases hq
  | fresh | paused | finished => cases h₂

end FramePhase

/-! ## The log of a frame -/

/-- The outcome of some instructions, if they end a run of a script. -/
def ScriptFrame.Progress.outcome? : ScriptFrame.Progress → Option Outcome
  | .running _ => none
  | .stopped o _ => some o

/-- A frame that is about to be resumed is away. -/
theorem Control.count_of_entering {c : Control H} {g : GeneratorRef} {x : Completion}
    (h : c.entering? = some (g, x)) : 0 < c.running.count g := by
  cases c with
  | resume f x' s =>
    cases s with
    | generator g' purpose =>
      cases h
      exact List.count_pos_iff.2 List.mem_cons_self
    | host a => cases h
  | _ => cases h

namespace World

/-- The stepper whose frame stops with a move, and the outcome. -/
def stops? (w : World H) : Move H → Option (Stepper H × Outcome)
  | .tick =>
    match w.config.control with
    | .resume (.values f) c s => some (s, (f.resume c).1)
    | .resume (.script f) c s => (f.enter c).outcome?.map (s, ·)
    | .run f s => f.step.outcome?.map (s, ·)
    | _ => none
  | .finishFrame o _ =>
    match w.config.control with
    | .host (.frame s) _ => some (s, o)
    | _ => none
  | _ => none

theorem stops?_eq_some {w : World H} {m : Move H} {s : Stepper H} {o : Outcome} :
    w.stops? m = some (s, o) ↔ w.Stops m s o := by
  refine ⟨fun h => ?_, fun h => ?_⟩
  · have hprogress : ∀ {progress : ScriptFrame.Progress} {s' : Stepper H},
        progress.outcome?.map (s', ·) = some (s, o) → s' = s ∧ ∃ f, progress = .stopped o f := by
      intro progress s' h
      cases progress with
      | running f => cases h
      | stopped o' f =>
        cases h
        exact ⟨rfl, f, rfl⟩
    obtain ⟨⟨e, control⟩, held⟩ := w
    cases m with
    | tick =>
      cases control with
      | resume f c s' =>
        cases f with
        | values f =>
          cases h
          exact .values f
        | script f =>
          obtain ⟨rfl, f', hf⟩ := hprogress h
          exact .enter hf
        | host code => cases h
      | run f s' =>
        obtain ⟨rfl, f', hf⟩ := hprogress h
        exact .script hf
      | _ => cases h
    | finishFrame o' code =>
      cases control with
      | host a prompt =>
        cases a with
        | frame s' =>
          cases h
          exact .host o code
        | _ => cases h
      | _ => cases h
    | _ => cases h
  · cases h with
    | values f => rfl
    | enter hf => simp [stops?, hf, ScriptFrame.Progress.outcome?]
    | script hf => simp [stops?, hf, ScriptFrame.Progress.outcome?]
    | host o code => rfl

/-- The steps that are under way when a frame is about to stop are those of its stepper. -/
theorem Stops.steps {w : World H} {m : Move H} {s : Stepper H} {o : Outcome}
    (hs : w.Stops m s o) : w.config.control.steps = s.steps := by
  cases hs <;> rfl

theorem Stops.ledger {w : World H} {m : Move H} {s : Stepper H} {o : Outcome}
    (hs : w.Stops m s o) (issued : List (AsyncGeneratorRef × Request)) :
    w.ledger issued = { engine := w.config.engine, held := w.held, stack := s.duties, issued } := by
  cases hs <;> rfl

theorem Stops.mem_steps {w : World H} {m : Move H} {g : GeneratorRef} {purpose : Purpose H}
    {o : Outcome} (hs : w.Stops m (.generator g purpose) o) :
    (g, purpose.duty? g) ∈ w.config.control.steps :=
  hs.steps ▸ List.mem_cons_self

/-- The request is on the stack whose step is about to end. -/
theorem Stops.stack_pos {w : World H} {m : Move H} {g : GeneratorRef} {a : AsyncGeneratorRef}
    {r : Request} {reply : Value} {k : Caller H} {o : Outcome}
    (hs : w.Stops m (.generator g (.serving a r reply k)) o)
    (issued : List (AsyncGeneratorRef × Request)) :
    0 < (w.ledger issued).stack.count (.serve a r) := by
  rw [hs.ledger]
  exact List.count_pos_iff.2 List.mem_cons_self

variable (w : World H) (m : Move H) (g : GeneratorRef)

/-- The frame of a generator is resumed. -/
def resumes : List FrameEvent :=
  match m, w.config.control.entering? with
  | .tick, some (g', c) => if g' = g then [.resumed c] else []
  | _, _ => []

/-- The frame of a generator stops. -/
def answers : List FrameEvent :=
  match w.stops? m with
  | some (.generator g' _, o) => if g' = g then [.answered o] else []
  | _ => []

/-- The frame of a generator is lost. -/
def loses : List FrameEvent :=
  match m with
  | .abandon => if g ∈ w.config.control.running then [.lost] else []
  | _ => []

/-- What happens to the frame of a generator with a move, in order. -/
def frameEvents : List FrameEvent := w.resumes m g ++ (w.answers m g ++ w.loses m g)

variable {w m g}

theorem resumes_cases (w : World H) (m : Move H) (g : GeneratorRef) :
    w.resumes m g = [] ∨ ∃ c, w.resumes m g = [.resumed c] ∧ m = .tick ∧
      w.config.control.entering? = some (g, c) := by
  unfold resumes
  split
  · next g' c he =>
    split
    · next hg => exact .inr ⟨c, rfl, rfl, hg ▸ he⟩
    · exact .inl rfl
  · exact .inl rfl

theorem mem_answers {ev : FrameEvent} (h : ev ∈ w.answers m g) :
    ∃ purpose o, ev = .answered o ∧ w.Stops m (.generator g purpose) o := by
  unfold answers at h
  split at h
  · next g' purpose o hs =>
    split at h
    · next hg => exact ⟨purpose, o, List.mem_singleton.1 h, hg ▸ stops?_eq_some.1 hs⟩
    · cases h
  · cases h

theorem answers_of_stops {purpose : Purpose H} {o : Outcome}
    (h : w.Stops m (.generator g purpose) o) : w.answers m g = [.answered o] := by
  simp only [answers, stops?_eq_some.2 h, if_true]

theorem mem_loses {ev : FrameEvent} (h : ev ∈ w.loses m g) :
    ev = .lost ∧ m = .abandon ∧ g ∈ w.config.control.running := by
  unfold loses at h
  split at h
  · split at h
    · next hg => exact ⟨List.mem_singleton.1 h, rfl, hg⟩
    · cases h
  · cases h

theorem mem_frameEvents {ev : FrameEvent} (h : ev ∈ w.frameEvents m g) :
    (∃ c, ev = .resumed c ∧ m = .tick ∧ w.config.control.entering? = some (g, c)) ∨
      (∃ purpose o, ev = .answered o ∧ w.Stops m (.generator g purpose) o) ∨
      ev = .lost ∧ m = .abandon ∧ g ∈ w.config.control.running := by
  rcases List.mem_append.1 h with h | h
  · obtain hnil | ⟨c, hres, hm, he⟩ := w.resumes_cases m g
    · rw [hnil] at h
      cases h
    · rw [hres] at h
      exact .inl ⟨c, List.mem_singleton.1 h, hm, he⟩
  · exact .inr ((List.mem_append.1 h).imp mem_answers mem_loses)

/-- Nothing happens to a frame that is not away. -/
theorem frameEvents_eq_nil (h : g ∉ w.config.control.running) : w.frameEvents m g = [] := by
  refine List.eq_nil_iff_forall_not_mem.2 fun ev hev => h ?_
  obtain ⟨c, -, -, he⟩ | ⟨purpose, o, -, hs⟩ | ⟨-, -, hg⟩ := mem_frameEvents hev
  · exact List.count_pos_iff.1 (Control.count_of_entering he)
  · exact Control.mem_running (x := (g, purpose.duty? g)) (hs.steps ▸ List.mem_cons_self)
  · exact hg

/-- With a move the frame is resumed before anything else happens to it. -/
theorem resumed_first {c : Completion} {before after : List FrameEvent}
    (h : w.frameEvents m g = before ++ .resumed c :: after) :
    before = [] ∧ m = .tick ∧ w.config.control.entering? = some (g, c) := by
  have hrest : FrameEvent.resumed c ∉ w.answers m g ++ w.loses m g := by
    intro hmem
    rcases List.mem_append.1 hmem with hmem | hmem
    · obtain ⟨-, o, heq, -⟩ := mem_answers hmem
      cases heq
    · cases (mem_loses hmem).1
  obtain hnil | ⟨c', hres, hm, he⟩ := w.resumes_cases m g
  · rw [frameEvents, hnil, List.nil_append] at h
    exact absurd (h ▸ List.mem_append_right _ List.mem_cons_self) hrest
  · rw [frameEvents, hres] at h
    cases before with
    | nil =>
      obtain ⟨heq, -⟩ := List.cons.inj h
      cases heq
      exact ⟨rfl, hm, he⟩
    | cons ev before =>
      have htail : w.answers m g ++ w.loses m g = before ++ .resumed c :: after :=
        (List.cons.inj h).2
      exact absurd (htail ▸ List.mem_append_right _ List.mem_cons_self) hrest

end World

/-- What has happened to the frame of a generator in the course of some events. -/
def frameLog (g : GeneratorRef) : List (Event H) → List FrameEvent
  | [] => []
  | ev :: es => frameLog g es ++ ev.before.frameEvents ev.move g

section Logs

variable {g : GeneratorRef}

theorem frameLog_append (g : GeneratorRef) (es es' : List (Event H)) :
    frameLog g (es ++ es') = frameLog g es' ++ frameLog g es := by
  induction es with
  | nil => exact (List.append_nil _).symm
  | cons ev es ih => rw [List.cons_append, frameLog, ih, frameLog, List.append_assoc]

/-- The move with which something on the log has happened. -/
theorem exists_move_of_frameLog {ev : FrameEvent} {before : List FrameEvent} :
    ∀ {es : List (Event H)} {after : List FrameEvent}, frameLog g es = before ++ ev :: after →
      ∃ later w m earlier pre post, es = later ++ ⟨w, m⟩ :: earlier ∧
        w.frameEvents m g = pre ++ ev :: post ∧ before = frameLog g earlier ++ pre ∧
        after = post ++ frameLog g later
  | [], _, h => by simp [frameLog] at h
  | ⟨w, m⟩ :: es, after, h => by
    obtain ⟨pre, hbefore, hev⟩ | ⟨post, hes, hev⟩ := List.append_eq_append_iff.1 h
    · exact ⟨[], w, m, es, pre, after, rfl, hev, hbefore, (List.append_nil _).symm⟩
    · cases post with
      | nil =>
        refine ⟨[], w, m, es, [], after, rfl, hev.symm, ?_, (List.append_nil _).symm⟩
        rw [hes, List.append_nil, List.append_nil]
      | cons ev' post =>
        obtain ⟨rfl, rfl⟩ := List.cons.inj hev
        obtain ⟨later, w', m', earlier, pre, post', rfl, hev', hbefore, rfl⟩ :=
          exists_move_of_frameLog hes
        exact ⟨⟨w, m⟩ :: later, w', m', earlier, pre, post', rfl, hev', hbefore,
          List.append_assoc _ _ _⟩

end Logs

/-! ## On the stage -/

/-- A frame that is away is away once, and then its generator is not suspended. A frame
that is at hand is in the phase that the state of its generator tells. -/
structure Stage.Ready (s : Stage H) (g : GeneratorRef) (p : FramePhase) : Prop where
  count_le : s.running.count g ≤ 1
  unborn : s.generators.size ≤ g.index → s.running.count g = 0 ∧ p = .fresh
  away : s.running.count g = 1 → (s.generator g).frame = none ∧
    (s.generator g).state ≠ .suspendedYield ∧ (s.generator g).state ≠ .suspendedStart
  fresh : s.running.count g = 0 → (s.generator g).frame.isSome = true →
    (s.generator g).state = .suspendedStart → p = .fresh
  paused : s.running.count g = 0 → (s.generator g).frame.isSome = true →
    (s.generator g).state = .suspendedYield → p = .paused

namespace Stage

variable {D L P : GeneratorRef → Prop} {s s' : Stage H} {g : GeneratorRef} {p : FramePhase}

namespace Ready

/-- While a frame is away, its generator cannot be resumed. -/
theorem not_takes (h : s.Ready g p) (hcount : s.running.count g = 1) (c : Completion) :
    ¬ (s.generator g).Takes c := by
  obtain ⟨-, hyield, hstart⟩ := h.away hcount
  rintro (ht | ⟨ht, -⟩)
  · exact hyield ht
  · exact hstart ht

/-- The phase of a frame that is at hand lets it be resumed. -/
theorem accepts (h : s.Ready g p) (hcount : s.running.count g = 0) {c : Completion}
    (hframe : (s.generator g).frame.isSome = true) (ht : (s.generator g).Takes c) :
    p.next (.resumed c) = some .running := by
  rcases ht with ht | ⟨ht, hc⟩
  · rw [h.paused hcount hframe ht]
    rfl
  · rw [h.fresh hcount hframe ht]
    simp [FramePhase.next, hc]

/-- The state of a generator tells nothing while its frame is away. -/
theorem rephase (h : s.Ready g p) (hcount : s.running.count g = 1) (q : FramePhase) :
    s.Ready g q := by
  have hne : s.running.count g ≠ 0 := by omega
  exact ⟨h.count_le, fun hle => absurd (h.unborn hle).1 hne, h.away, fun h₀ => absurd h₀ hne,
    fun h₀ => absurd h₀ hne⟩

/-- A change that is not about the frame of the generator, or that takes it away. -/
theorem of_generator (h : s.Ready g p) (hsize : s.generators.size ≤ s'.generators.size)
    (hcount : s'.running.count g = s.running.count g)
    (hgen : s'.generator g = s.generator g ∨
      (s'.generator g).frame = none ∧ (s'.generator g).state = .completed ∨
      (s'.generator g).frame = none ∧ (s'.generator g).state = (s.generator g).state) :
    s'.Ready g p := by
  refine ⟨hcount ▸ h.count_le, fun hle => hcount ▸ h.unborn (hsize.trans hle), fun h₁ => ?_,
    fun h₀ hf hs => ?_, fun h₀ hf hs => ?_⟩
  · obtain ⟨hnone, hyield, hstart⟩ := h.away (hcount ▸ h₁)
    rcases hgen with hgen | ⟨hnone', hstate⟩ | ⟨hnone', hstate⟩
    · rw [hgen]
      exact ⟨hnone, hyield, hstart⟩
    · rw [hstate]
      exact ⟨hnone', nofun, nofun⟩
    · rw [hstate]
      exact ⟨hnone', hyield, hstart⟩
  · rcases hgen with hgen | ⟨hnone, -⟩ | ⟨hnone, -⟩
    · rw [hgen] at hf hs
      exact h.fresh (hcount ▸ h₀) hf hs
    · rw [hnone] at hf
      cases hf
    · rw [hnone] at hf
      cases hf
  · rcases hgen with hgen | ⟨hnone, -⟩ | ⟨hnone, -⟩
    · rw [hgen] at hf hs
      exact h.paused (hcount ▸ h₀) hf hs
    · rw [hnone] at hf
      cases hf
    · rw [hnone] at hf
      cases hf

/-- While the frame is away, its step can end. -/
theorem ended (h : s.Ready g p) (hcount : s.running.count g = 1)
    (hsize : s.generators.size ≤ s'.generators.size) (hcount' : s'.running.count g = 0)
    (hfresh : (s'.generator g).frame.isSome = true →
      (s'.generator g).state = .suspendedYield ∧ p = .paused) : s'.Ready g p := by
  refine ⟨by omega, fun hle => ?_, fun h₁ => ?_, fun _ hf hs => ?_, fun _ hf _ => (hfresh hf).2⟩
  · have hnone := (h.unborn (hsize.trans hle)).1
    omega
  · omega
  · rw [(hfresh hf).1] at hs
    cases hs

/-- A step begins and takes the frame away. -/
theorem begun (h : s.Ready g p) {c : Completion} (ht : (s.generator g).Takes c) :
    Ready { s.modify g (fun r => { r with state := .executing, frame := none }) with
      running := g :: s.running } g p := by
  have hcount : s.running.count g = 0 := by
    have hle := h.count_le
    have hne : s.running.count g ≠ 1 := fun h₁ => h.not_takes h₁ c ht
    omega
  have hgen : (s.modify g (fun r => { r with state := .executing, frame := none })).generator g =
      { s.generator g with state := .executing, frame := none } :=
    (generator_modify s g g _).trans (if_pos rfl)
  refine ⟨?_, fun hle => ?_, fun _ => ?_, fun h₀ => ?_, fun h₀ => ?_⟩
  · rw [List.count_cons_self, hcount]
  · simp only [modify, Store.modify, Store.size_set] at hle
    exact absurd hle (by omega)
  · refine ⟨congrArg Generator.frame hgen, ?_, ?_⟩
    · exact fun hs => GeneratorState.noConfusion ((congrArg Generator.state hgen).symm.trans hs)
    · exact fun hs => GeneratorState.noConfusion ((congrArg Generator.state hgen).symm.trans hs)
  · simp at h₀
  · simp at h₀

end Ready

/-- **Every change keeps a frame ready**, if a frame that stops for now is in the phase to
go on. -/
theorem Change.ready (h : Change D L P s s') (hP : P g → p = .paused) (hs : s.Ready g p) :
    s'.Ready g p := by
  have hother : ∀ (g' : GeneratorRef) (change : Generator H → Generator H)
      (running : List GeneratorRef), g' ≠ g → running.count g = s.running.count g →
      Ready ⟨s.generators.modify g'.index change, running⟩ g p := by
    intro g' change running hne hcount
    refine hs.of_generator (size_le_modify s g' change) hcount (.inl ?_)
    exact (generator_modify s g' g change).trans (if_neg (Ne.symm hne))
  have hself : ∀ change : Generator H → Generator H,
      (s.modify g change).generator g = change (s.generator g) := fun change =>
    (generator_modify s g g change).trans (if_pos rfl)
  have htop : ∀ {rest}, s.running = g :: rest → s.running.count g = 1 ∧ rest.count g = 0 := by
    intro rest hrest
    have hle := hs.count_le
    rw [hrest, List.count_cons_self] at hle ⊢
    omega
  cases h with
  | create id f =>
    by_cases hg : g.index = s.generators.size
    · obtain ⟨hcount, hp⟩ := hs.unborn hg.ge
      have hgen := (Store.get_push s.generators
        { id, state := .suspendedStart, frame := some f } g.index).trans (if_pos hg)
      refine ⟨hs.count_le, fun hle => ?_, fun h₁ => ?_, fun _ _ _ => hp, fun _ _ hy => ?_⟩
      · simp only [Store.size_push] at hle
        omega
      · exact absurd (h₁.symm.trans hcount) (Nat.succ_ne_zero 0)
      · rw [generator, hgen] at hy
        cases hy
    · refine hs.of_generator ?_ rfl (.inl ((Store.get_push _ _ _).trans (if_neg hg)))
      simp
  | @close g' hD =>
    by_cases hg : g' = g
    · subst hg
      exact hs.of_generator (size_le_modify s _ _) rfl
        (.inr (.inl (by rw [hself]; exact ⟨rfl, rfl⟩)))
    · exact hother g' _ _ hg rfl
  | @drop g' hD hL =>
    by_cases hg : g' = g
    · subst hg
      exact hs.of_generator (size_le_modify s _ _) rfl
        (.inr (.inr (by rw [hself]; exact ⟨rfl, rfl⟩)))
    · exact hother g' _ _ hg rfl
  | @resume g' c hD ht hf =>
    by_cases hg : g' = g
    · subst hg
      exact hs.begun ht
    · exact hother g' (fun r => { r with state := .executing, frame := none }) (g' :: s.running) hg
        (List.count_cons_of_ne hg)
  | @fail g' c hD ht hf =>
    by_cases hg : g' = g
    · subst hg
      exact hs.of_generator (size_le_modify s _ _) rfl
        (.inr (.inl (by rw [hself]; exact ⟨hf, rfl⟩)))
    · exact hother g' _ _ hg rfl
  | @finish g' rest hD hrest =>
    by_cases hg : g' = g
    · subst hg
      refine hs.ended (htop hrest).1 (size_le_modify s _ _) (htop hrest).2 fun hf => ?_
      have hnone := (hs.away (htop hrest).1).1
      have hgen := congrArg Generator.frame (hself fun r => { r with state := .completed })
      cases (congrArg Option.isSome (hgen.trans hnone)).symm.trans hf
    · refine hother g' (fun r => { r with state := .completed }) rest hg ?_
      rw [hrest, List.count_cons_of_ne hg]
  | @pause g' rest f hD hp hrest =>
    by_cases hg : g' = g
    · subst hg
      refine hs.ended (htop hrest).1 (size_le_modify s _ _) (htop hrest).2 fun _ => ⟨?_, hP hp⟩
      exact congrArg Generator.state (hself _)
    · refine hother g' (fun r => { r with state := .suspendedYield, frame := some f }) rest hg ?_
      rw [hrest, List.count_cons_of_ne hg]
  | abandon hall =>
    have hle := hs.count_le
    obtain hcount | hcount : s.running.count g = 0 ∨ s.running.count g = 1 := by omega
    · exact hs.of_generator (Nat.le_refl _) hcount.symm (.inl rfl)
    · refine hs.ended hcount (Nat.le_refl _) rfl fun hf => ?_
      have hf : (s.generator g).frame.isSome = true := hf
      rw [(hs.away hcount).1] at hf
      cases hf

theorem Changes.ready (h : Changes D L P s s') (hP : P g → p = .paused) (hs : s.Ready g p) :
    s'.Ready g p := by
  induction h with
  | refl => exact hs
  | tail _ h ih => exact h.ready hP ih

end Stage

/-! ## Steps -/

/-- A generator whose frame is away or at hand, in the phase of its frame. -/
structure World.Phased (w : World H) (g : GeneratorRef) (p : FramePhase) : Prop where
  ready : w.config.stage.Ready g p
  /-- The frame is about to be resumed. -/
  entering : ∀ c, w.config.control.entering? = some (g, c) → p.next (.resumed c) = some .running
  running : w.config.control.running.count g = 1 →
    (∀ c, w.config.control.entering? ≠ some (g, c)) → p = .running

section Steps

variable {w w' : World H} {m : Move H} {g : GeneratorRef} {p : FramePhase}

/-- A frame that stops is handed to its stepper. -/
theorem Step.stops (h : Step w m w') {s : Stepper H} {o : Outcome} (hs : w.Stops m s o) :
    ∃ f, w' = ⟨w.config.engine.frameStopped o f s, w.held⟩ := by
  cases hs with
  | values f =>
    cases h
    exact ⟨.values (f.resume _).2, rfl⟩
  | @enter e c s held f f' o hf =>
    cases h
    refine ⟨.script f', ?_⟩
    simp only [Config.tick, Engine.resumeFrame, hf, Engine.scriptProgress]
  | @script e s held f f' o hf =>
    cases h
    refine ⟨.script f', ?_⟩
    simp only [Config.tick, hf, Engine.scriptProgress]
  | host o code =>
    cases h
    exact ⟨.host code, rfl⟩

/-- The frame that stops was on top of the stack. -/
theorem Step.steps_of_stops (h : Step w m w') {purpose : Purpose H} {o : Outcome}
    (hs : w.Stops m (.generator g purpose) o) :
    w.config.control.steps = (g, purpose.duty? g) :: w'.config.control.steps ∧
      w'.config.control.entering? = none := by
  obtain ⟨f, rfl⟩ := h.stops hs
  obtain ⟨hsteps, hnone⟩ := (w.config.engine.endStep g f o).conclude_steps g (.ok o) purpose
  rw [hs.steps]
  exact ⟨congrArg ((g, purpose.duty? g) :: ·) hsteps.symm, hnone⟩

/-- The only frame that can be about to be resumed when one stops is the same one. -/
theorem World.Stops.generator_eq {purpose : Purpose H} {o : Outcome} {g' : GeneratorRef}
    {c : Completion} (h : w.Stops m (.generator g purpose) o)
    (he : w.config.control.entering? = some (g', c)) : g' = g := by
  cases h with
  | values f | enter hf =>
    cases he
    rfl
  | script hf => cases he
  | host o code => cases he

namespace World

theorem count_running (w : World H) (g : GeneratorRef) :
    w.config.control.running.count g = w.config.control.steps.countP (·.1 = g) :=
  w.config.control.tallies.count_running g

/-- The events of a move with which no frame stops and nothing is lost. -/
theorem frameEvents_eq (hm : m ≠ .abandon)
    (hs : ∀ purpose o, ¬ w.Stops m (.generator g purpose) o) :
    w.frameEvents m g = w.resumes m g := by
  have hanswers : w.answers m g = [] := by
    unfold answers
    split
    · next g' purpose o heq =>
      rw [if_neg]
      rintro rfl
      exact hs purpose o (stops?_eq_some.1 heq)
    · rfl
  have hloses : w.loses m g = [] := by
    cases m with
    | abandon => exact absurd rfl hm
    | _ => rfl
  rw [frameEvents, hanswers, hloses, List.append_nil, List.append_nil]

end World

/-- A frame that is about to be resumed is resumed next. -/
theorem Step.tick_of_entering (h : Step w m w') {x : GeneratorRef × Completion}
    (he : w.config.control.entering? = some x) : m = .tick := by
  cases h with
  | tick c held => rfl
  | _ => cases he

/-- The frame is resumed if it is about to be. -/
theorem Step.resumes_cases (h : Step w m w') (g : GeneratorRef) :
    w.resumes m g = [] ∧ (∀ c, w.config.control.entering? ≠ some (g, c)) ∨
      ∃ c, w.resumes m g = [.resumed c] ∧ w.config.control.entering? = some (g, c) := by
  cases he : w.config.control.entering? with
  | none =>
    refine .inl ⟨?_, nofun⟩
    cases m <;> simp only [World.resumes, he]
  | some x =>
    obtain ⟨g', c⟩ := x
    obtain rfl := h.tick_of_entering he
    by_cases hg : g' = g
    · subst hg
      exact .inr ⟨c, by simp only [World.resumes, he, if_true], rfl⟩
    · refine .inl ⟨by simp only [World.resumes, he, if_neg hg], fun c' hc => ?_⟩
      cases hc
      exact hg rfl

/-- A step of the frame ends with its outcome. -/
theorem Step.phased_of_stops (h : Step w m w') (hw : w.Phased g p) {purpose : Purpose H}
    {o : Outcome} (hs : w.Stops m (.generator g purpose) o) :
    ∃ q, p.reads (w.frameEvents m g) = some q ∧ w'.Phased g q := by
  obtain ⟨hsteps, hnone⟩ := h.steps_of_stops hs
  have hcons : w.config.control.running.count g = w'.config.control.running.count g + 1 := by
    rw [World.count_running, World.count_running, hsteps, List.countP_cons]
    simp
  have hle := hw.ready.count_le
  have hcount : w.config.control.running.count g = 1 := by
    have hle : w.config.control.running.count g ≤ 1 := hle
    omega
  have hresumed : p.reads (w.resumes m g) = some .running := by
    obtain ⟨hnil, hne⟩ | ⟨c, hres, he⟩ := h.resumes_cases g
    · rw [hnil, hw.running hcount hne]
      rfl
    · rw [hres, FramePhase.reads_cons, hw.entering c he]
      rfl
  have hevents : w.frameEvents m g = w.resumes m g ++ [.answered o] := by
    have hloses : w.loses m g = [] := by cases hs <;> rfl
    rw [World.frameEvents, hloses, World.answers, World.stops?_eq_some.2 hs]
    simp
  have hchanges := h.changes (D := fun _ => True) (fun _ _ => trivial) fun _ _ => trivial
  refine ⟨if o.isFinished then .finished else .paused, ?_, ?_, ?_, ?_⟩
  · rw [hevents, FramePhase.reads_append, hresumed]
    rfl
  · refine hchanges.ready ?_ (hw.ready.rephase hcount _)
    rintro ⟨purpose', o', hs', ho'⟩
    have hsame := (World.stops?_eq_some.2 hs).symm.trans (World.stops?_eq_some.2 hs')
    cases hsame
    rw [ho']
    rfl
  · intro c he
    rw [hnone] at he
    cases he
  · intro h₁
    omega

/-- With everything that is under way, the frame is lost for good. -/
theorem Step.phased_of_abandon (h : Step w .abandon w') (hw : w.Phased g p) :
    ∃ q, p.reads (w.frameEvents .abandon g) = some q ∧ w'.Phased g q := by
  have hchanges := h.changes (D := fun _ => True) (fun _ _ => trivial) fun _ _ => trivial
  have hnever : ∀ {q}, w.Pauses .abandon g → q = FramePhase.paused := by
    rintro q ⟨purpose, o, hs, -⟩
    cases hs
  have hle := hw.ready.count_le
  cases h with
  | @abandon e a prompt held =>
    have hphased : ∀ {q}, Stage.Ready ⟨e.generators, a.running⟩ g q →
        (World.mk (.abandon e) held).Phased g q := fun hq =>
      ⟨hchanges.ready hnever hq, nofun, nofun⟩
    by_cases hg : g ∈ a.running
    · have hpos : 0 < a.running.count g := List.count_pos_iff.2 hg
      have hone : a.running.count g = 1 := by
        have hle : a.running.count g ≤ 1 := hle
        omega
      refine ⟨.finished, ?_, hphased (hw.ready.rephase hone _)⟩
      have hrun : p = .running := hw.running hone nofun
      have hevents : World.frameEvents ⟨⟨e, .host a prompt⟩, held⟩ .abandon g = [.lost] := if_pos hg
      rw [hevents, hrun]
      rfl
    · refine ⟨p, ?_, hphased hw.ready⟩
      have hevents : World.frameEvents ⟨⟨e, .host a prompt⟩, held⟩ .abandon g = [] := if_neg hg
      rw [hevents]
      rfl

/-- **Every step keeps to the protocol.** -/
theorem Step.phased (h : Step w m w') (hw : w.Phased g p) :
    ∃ q, p.reads (w.frameEvents m g) = some q ∧ w'.Phased g q := by
  by_cases hstop : ∃ purpose o, w.Stops m (.generator g purpose) o
  · obtain ⟨purpose, o, hs⟩ := hstop
    exact h.phased_of_stops hw hs
  by_cases hm : m = .abandon
  · subst hm
    exact h.phased_of_abandon hw
  have hnot : ∀ purpose o, ¬ w.Stops m (.generator g purpose) o :=
    fun purpose o hs => hstop ⟨purpose, o, hs⟩
  rw [World.frameEvents_eq hm hnot]
  have hle : w.config.control.running.count g ≤ 1 := hw.ready.count_le
  have hready : ∀ {q}, w.config.stage.Ready g q → w'.config.stage.Ready g q := fun hq =>
    (h.changes (D := fun _ => True) (fun _ _ => trivial) fun _ _ => trivial).ready
      (fun ⟨purpose, o, hs, _⟩ => absurd hs (hnot purpose o)) hq
  -- as many steps as before, and none of them is about to begin
  have hsteady : w'.config.control.running.count g = w.config.control.running.count g →
      (∀ c, w'.config.control.entering? ≠ some (g, c)) →
      ∃ q, p.reads (w.resumes m g) = some q ∧ w'.Phased g q := by
    intro hcount hne
    obtain ⟨hnil, hne₀⟩ | ⟨c, hres, he⟩ := h.resumes_cases g
    · refine ⟨p, by rw [hnil]; rfl, hready hw.ready, fun c he => absurd he (hne c), fun h₁ _ => ?_⟩
      exact hw.running (hcount.symm.trans h₁) hne₀
    · have hone : w.config.control.running.count g = 1 := by
        have hpos := Control.count_of_entering he
        omega
      refine ⟨.running, ?_, hready (hw.ready.rephase hone _), fun c he => absurd he (hne c),
        fun _ _ => rfl⟩
      rw [hres, FramePhase.reads_cons, hw.entering c he]
      rfl
  cases h.turn with
  | @stops g' purpose o hs hsteps hnone =>
    have hg : g' ≠ g := by
      rintro rfl
      exact hnot purpose o hs
    refine hsteady ?_ fun c he => ?_
    · rw [World.count_running, World.count_running, hsteps, List.countP_cons]
      simp [hg]
    · rw [hnone] at he
      cases he
  | lost hab hcontrol => exact absurd hab hm
  | advances hadv =>
    obtain ⟨config, held⟩ := w'
    cases hadv with
    | quiet hsteps hnone =>
      refine hsteady ?_ fun c he => ?_
      · rw [World.count_running, World.count_running, hsteps]
      · rw [hnone] at he
        cases he
    | @begins e₁ g' c f purpose hmay hsteps hkeeps ht hf =>
      by_cases hg : g' = g
      · subst hg
        have hgen : (e₁.generator g').frame.isSome = true := by rw [hf]; rfl
        have hone : w.config.control.running.count g' = 0 ∧ p.next (.resumed c) = some .running := by
          rcases hkeeps with hsame | ⟨hnew, hstart⟩
          · rw [hsame] at ht hgen
            have hcount : w.config.control.running.count g' = 0 := by
              have hne : w.config.control.running.count g' ≠ 1 :=
                fun h₁ => hw.ready.not_takes h₁ c ht
              omega
            exact ⟨hcount, hw.ready.accepts hcount hgen ht⟩
          · obtain ⟨hcount, hp⟩ := hw.ready.unborn hnew
            have hc : c.isAbrupt = false := by
              rcases ht with hy | ⟨-, hc⟩
              · rw [hstart] at hy
                cases hy
              · exact hc
            refine ⟨hcount, ?_⟩
            rw [hp]
            simp [FramePhase.next, hc]
        have hnil : w.resumes m g' = [] := by
          obtain ⟨hnil, -⟩ | ⟨c', -, he⟩ := h.resumes_cases g'
          · exact hnil
          · exact absurd hone.1 (Control.count_of_entering he).ne'
        refine ⟨p, by rw [hnil]; rfl, hready hw.ready, fun c' he => ?_, fun _ hne => ?_⟩
        · cases he
          exact hone.2
        · exact absurd rfl (hne c)
      · refine hsteady ?_ fun c' he => ?_
        · rw [World.count_running, World.count_running, ← hsteps]
          show ((g', purpose.duty? g') :: purpose.steps).countP _ = _
          rw [List.countP_cons]
          simp [hg]
        · cases he
          exact hg rfl

end Steps

/-! ## Refused steps -/

/-- The step of a generator that an operation asks for. -/
def Op.step? : Op H → Option (GeneratorRef × Completion)
  | .stepGenerator g c | .advanceGenerator g c => some (g, c)
  | .generatorMethod (.generator g) method args =>
    (Engine.methodCompletion? method (Value.argument args 0)).map (g, ·)
  | _ => none

/-- The error that an answer carries. -/
def Answer.error? : Answer H → Option EngineError
  | .outcome (.error error) | .value (.error (.engine error)) => some error
  | _ => none

/-- A generator that is executing is not stepped, whatever for. -/
theorem Engine.stepGenerator_refused {e : Engine H} {g : GeneratorRef}
    (hs : (e.generator g).state = .executing) (c : Completion) (purpose : Purpose H) :
    e.stepGenerator g c purpose = e.conclude g (.error .alreadyRunning) purpose ∧
      (e.stepGenerator g c purpose).engine.generators = e.generators := by
  have heq : e.stepGenerator g c purpose = e.conclude g (.error .alreadyRunning) purpose := by
    simp only [stepGenerator, beginStep, hs]
  refine ⟨heq, ?_⟩
  rw [heq]
  cases purpose with
  | serving a r reply k => exact generators_absorbOutcome e a r _
  | body p reply k => exact (spares_absorbBodyOutcome e g p _).generators
  | _ => rfl

/-- What host code does next does not depend on why it has the floor. -/
theorem Step.of_prompt {e : Engine H} {h : Activation H} {prompt : Prompt H} {held : List (Job H)}
    {m : Move H} {w' : World H} (hm : m ≠ .tick) (prompt' : Prompt H)
    (hs : Step ⟨⟨e, .host h prompt⟩, held⟩ m w') : Step ⟨⟨e, .host h prompt'⟩, held⟩ m w' := by
  cases hs with
  | tick => exact absurd rfl hm
  | perform hop => exact .perform hop
  | putBack => exact .putBack
  | finishCall result => exact .finishCall result
  | finishFrame o code => exact .finishFrame o code
  | finishJob result => exact .finishJob result
  | abandon => exact .abandon

/-- The host asks for a step of a generator that is executing. -/
theorem Engine.perform_refused {e : Engine H} {g : GeneratorRef}
    (hs : (e.generator g).state = .executing) {op : Op H} {c : Completion}
    (hop : op.step? = some (g, c)) (h : Activation H) :
    ∃ a, e.perform h op = ⟨e, .host h (.answered a)⟩ ∧ a.error? = some .alreadyRunning := by
  have hiterator : e.stepGenerator g c (.iterator h) =
      ⟨e, .host h (.answered (.value (.error (.engine .alreadyRunning))))⟩ :=
    (stepGenerator_refused hs c (.iterator h)).1
  cases op with
  | stepGenerator g' c' =>
    cases hop
    exact ⟨.outcome (.error .alreadyRunning), (stepGenerator_refused hs c (.outcome h)).1, rfl⟩
  | advanceGenerator g' c' =>
    cases hop
    exact ⟨.value (.error (.engine .alreadyRunning)), hiterator, rfl⟩
  | generatorMethod receiver method args =>
    cases receiver with
    | generator g' =>
      obtain ⟨c', hc, heq⟩ := Option.map_eq_some_iff.1 hop
      cases heq
      refine ⟨.value (.error (.engine .alreadyRunning)), ?_, rfl⟩
      simp only [perform, hc]
      exact hiterator
    | _ => cases hop
  | _ => cases hop

/-! ## Runs -/

theorem World.phased_start (g : GeneratorRef) : ({} : World H).Phased g .fresh :=
  ⟨⟨Nat.zero_le _, fun _ => ⟨rfl, rfl⟩, nofun, fun _ _ _ => rfl, fun _ hf _ => by cases hf⟩,
    nofun, nofun⟩

theorem Run.phased {es : List (Event H)} {w : World H} (h : Run es w) (g : GeneratorRef) :
    ∃ p, FramePhase.fresh.reads (frameLog g es) = some p ∧ w.Phased g p := by
  induction h with
  | refl => exact ⟨.fresh, rfl, World.phased_start g⟩
  | @step es w₁ w₂ m h hs ih =>
    obtain ⟨p, hp, hw⟩ := ih
    obtain ⟨q, hq, hw'⟩ := hs.phased hw
    refine ⟨q, ?_, hw'⟩
    rw [frameLog, FramePhase.reads_append, hp]
    exact hq

/-- **The engine keeps to the protocol of frames** in every run, whatever the frame of a
generator and everybody else do. The frame is resumed for the first time with a normal
completion, and later only after it has stopped for now. It stops only when it has been
resumed, and an outcome that is final is the last that happens to it. While a generator is
executing, no step of it begins: it is left alone, host code that has asked for the step
gets an error at once, and whatever happens next is what would have happened otherwise. -/
theorem Run.frame_protocol {es : List (Event H)} {w : World H} (h : Run es w) (g : GeneratorRef) :
    (∀ before c after, frameLog g es = before ++ .resumed c :: after →
      before = [] ∧ c.isAbrupt = false ∨
        ∃ earlier o, before = earlier ++ [.answered o] ∧ o.isFinished = false) ∧
    (∀ before o after, frameLog g es = before ++ .answered o :: after →
      (∃ earlier c, before = earlier ++ [.resumed c]) ∧ (o.isFinished = true → after = [])) ∧
    ((w.config.engine.generator g).state = .executing →
      (∀ c purpose, w.config.engine.stepGenerator g c purpose =
          w.config.engine.conclude g (.error .alreadyRunning) purpose ∧
        (w.config.engine.stepGenerator g c purpose).engine.generators =
          w.config.engine.generators) ∧
      ∀ h prompt op c, w.config.control = .host h prompt → op.step? = some (g, c) →
        ∃ a, w.config.engine.perform h op = ⟨w.config.engine, .host h (.answered a)⟩ ∧
          a.error? = some (.invalidState "Generator is already running") ∧
          ∀ m w', m ≠ .tick →
            (Step ⟨w.config.engine.perform h op, w.held⟩ m w' ↔ Step w m w')) := by
  obtain ⟨p, hp, -⟩ := h.phased g
  refine ⟨fun before c after hlog => ?_, fun before o after hlog => ?_, fun hs => ⟨?_, ?_⟩⟩
  · rw [hlog] at hp
    exact FramePhase.resumed_cases hp
  · rw [hlog] at hp
    exact FramePhase.answered_cases hp
  · exact fun c purpose => Engine.stepGenerator_refused hs c purpose
  · obtain ⟨⟨e, control⟩, held⟩ := w
    rintro a prompt op c rfl hop
    obtain ⟨answer, hperform, herror⟩ := Engine.perform_refused hs hop a
    refine ⟨answer, hperform, herror, fun m w' hm => ?_⟩
    rw [hperform]
    exact ⟨fun hs' => hs'.of_prompt hm prompt, fun hs' => hs'.of_prompt hm _⟩

/-- Moves with which the frame of a generator steps its own generator, and is resumed once
more after it has paused. -/
def World.steppingItself : List (Move Unit) :=
  [.perform (.newGenerator (.host ())), .perform (.advanceGenerator ⟨0⟩ (.normal .undefined)),
    .tick, .perform (.advanceGenerator ⟨0⟩ (.throwing .null)), .finishFrame (.yielded .null) (),
    .perform (.advanceGenerator ⟨0⟩ (.throwing .null)), .tick]

theorem Run.frame_protocol_itself :
    let w := ({} : World Unit).after World.steppingItself
    let inside : Activation Unit := .frame (.generator ⟨0⟩ (.iterator .main))
    (∃ earlier o, [FrameEvent.resumed (.normal .undefined), .answered (.yielded .null)] =
      earlier ++ [.answered o] ∧ o.isFinished = false) ∧
    ∃ a, w.config.engine.perform inside (.advanceGenerator ⟨0⟩ (.throwing .null)) =
        ⟨w.config.engine, .host inside (.answered a)⟩ ∧
      a.error? = some (.invalidState "Generator is already running") := by
  intro w inside
  have h : Run (({} : World Unit).events World.steppingItself) w :=
    World.steps_after (by decide +kernel)
  obtain ⟨hresumed, -, hrefused⟩ := Run.frame_protocol h ⟨0⟩
  obtain ⟨-, hperform⟩ := hrefused (by decide +kernel)
  obtain ⟨a, ha, herror, -⟩ := hperform inside (.resumed () (.throwing .null))
    (.advanceGenerator ⟨0⟩ (.throwing .null)) _ rfl rfl
  have hlog : frameLog ⟨0⟩ (({} : World Unit).events World.steppingItself) =
      [.resumed (.normal .undefined), .answered (.yielded .null)] ++ [.resumed (.throwing .null)] := by
    decide +kernel
  have hpaused := (hresumed _ _ _ hlog).resolve_left fun hnil => absurd hnil.1 (by simp)
  exact ⟨hpaused, a, ha, herror⟩

end Microtask
