import ScrapeRelay.Proofs.Relay.Installs

/-!
The next free number is above all numbers in use: of channels, scouts, pools, sinks, probes and tasks, those
that tasks and the registry hold and those in the journal. A call is in the middle of its first act only.
-/

namespace ScrapeRelay.Relay

def Below {α : Type} (d : Dict Nat α) (n : Nat) : Prop := ∀ i, n ≤ i → d.get? i = none

namespace Below

variable {α : Type} {d : Dict Nat α} {n m i : Nat} {a : α}

theorem lt (h : Below d n) (hi : d.get? i = some a) : i < n := by
  apply Nat.lt_of_not_le
  intro hn
  rw [h i hn] at hi
  simp at hi

theorem mono (h : Below d n) (hm : n ≤ m) : Below d m := fun i hi => h i (Nat.le_trans hm hi)

theorem insert (h : Below d n) (hi : i < n) : Below (d.insert i a) n := by
  intro j hj
  rw [Dict.get?_insert, if_neg (by omega)]
  exact h j hj

theorem insert_fresh (h : Below d n) : Below (d.insert n a) (n + 1) :=
  (h.mono (Nat.le_succ n)).insert (Nat.lt_succ_self n)

end Below

def Member.number : Member → Nat
  | .scout n | .pool n | .probe n => n

def Task.post? : Task → Option Nat
  | .worker _ c _ => some c
  | _ => none

/-- The channel whose sending end a task holds. -/
def Task.outbound? (t : Task) : Option Nat := t.delivery?.bind (·.channel?)

def Task.numbers (t : Task) : List Nat := t.post?.toList ++ t.outbound?.toList ++ t.pending.map Member.number

def Event.numbers : Event → List Nat
  | .entered c _ _ => [c]
  | .taken c task? _ => c :: task?.toList
  | .handled w _ => [w]
  | .offered sink w _ _ => [sink, w]
  | .started m | .stopped m | .closed m => [m.number]
  | _ => []

structure Numbered (r : Relay) : Prop where
  channels : Below r.channels r.fresh
  scouts : Below r.scouts r.fresh
  pools : Below r.pools r.fresh
  outlets : Below r.outlets r.fresh
  tasks : Below r.tasks r.fresh
  task : ∀ me t, r.tasks.get? me = some t → t.Ordered ∧ ∀ i ∈ t.numbers, i < r.fresh
  given : ∀ k c, r.registry.channels.get? k = some c → c < r.fresh
  sources : ∀ k x, r.registry.sources.get? k = some x → x.member.number < r.fresh
  drains : ∀ k d, r.registry.drains.get? k = some d → d.member.number < r.fresh
  sink : ∀ n p, r.pools.get? n = some p → p.sink < r.fresh
  staff : ∀ me n c w, r.tasks.get? me = some (.worker n c w) → (r.pools.get? n).isSome
  journal : ∀ e ∈ r.journal, ∀ i ∈ e.numbers, i < r.fresh

variable {r s : Relay} {me n c : Nat} {t : Task} {k : Key}

theorem get?_setTask (r : Relay) (me : Nat) (t : Task) : (r.setTask me t).tasks.get? me = some t := by
  simp [Relay.setTask]

namespace Numbered

theorem start (inventory : Cluster.Inventory) (network : Network) (every : Option Nat) :
    Numbered (start inventory network every) := by
  refine ⟨?_, ?_, ?_, ?_, ?_, ?_, ?_, ?_, ?_, ?_, ?_, ?_⟩
  all_goals simp [Relay.start, Below, Registry.empty]

theorem remark_numbers {e : Event} (h : e.isRemark = true) : e.numbers = [] := by
  cases e <;> simp_all [Event.isRemark, Event.numbers]

theorem aside (h : Numbered r) (ha : Aside r s) : Numbered s := by
  obtain ⟨scouts, board, remarks, hs, hr⟩ := ha
  refine { h with scouts := ?_, journal := ?_ }
  · intro i hi
    have hn := hs i
    rw [h.scouts i hi] at hn
    simpa using hn
  · intro e he
    rcases List.mem_append.mp he with he | he
    · simp [remark_numbers (hr e he)]
    · exact h.journal e he

theorem scoutsSet (h : Numbered r) (hn : n < r.fresh) (x : Scout) : Numbered (r.setScout n x) :=
  { h with scouts := h.scouts.insert hn }

theorem record (h : Numbered r) {e : Event} (he : ∀ i ∈ e.numbers, i < r.fresh) : Numbered (r.record e) := by
  refine { h with journal := ?_ }
  intro e' he'
  rcases List.mem_cons.mp he' with rfl | he'
  · exact he
  · exact h.journal e' he'

theorem setTask (h : Numbered r) (hm : me < r.fresh) (ho : t.Ordered) (ht : ∀ i ∈ t.numbers, i < r.fresh)
    (hs : ∀ n c w, t = .worker n c w → (r.pools.get? n).isSome) : Numbered (r.setTask me t) := by
  refine { h with tasks := h.tasks.insert hm, task := Dict.forall_insert h.task ⟨ho, ht⟩, staff := ?_ }
  intro w n c wk hu
  rcases Dict.of_get?_insert hu with ⟨-, hu⟩ | ⟨-, hu⟩
  · exact hs n c wk hu.symm
  · exact h.staff w n c wk hu

theorem setChannel (h : Numbered r) (hc : c < r.fresh) (ch : Channel) : Numbered (r.setChannel c ch) :=
  { h with channels := h.channels.insert hc }

theorem setPool (h : Numbered r) (hn : n < r.fresh) (p : Pool) (hp : p.sink < r.fresh) :
    Numbered (r.setPool n p) := by
  refine { h with pools := h.pools.insert hn, sink := Dict.forall_insert h.sink hp, staff := ?_ }
  intro me m c w ht
  simp only [Relay.setPool, Dict.get?_insert]
  split
  · rfl
  · exact h.staff me m c w ht

theorem mono (h : Numbered r) {m : Nat} (hm : r.fresh ≤ m) : Numbered { r with fresh := m } where
  channels := h.channels.mono hm
  scouts := h.scouts.mono hm
  pools := h.pools.mono hm
  outlets := h.outlets.mono hm
  tasks := h.tasks.mono hm
  task me t ht := ⟨(h.task me t ht).1, fun i hi => Nat.lt_of_lt_of_le ((h.task me t ht).2 i hi) hm⟩
  given k c hc := Nat.lt_of_lt_of_le (h.given k c hc) hm
  sources k x hx := Nat.lt_of_lt_of_le (h.sources k x hx) hm
  drains k d hd := Nat.lt_of_lt_of_le (h.drains k d hd) hm
  sink n p hp := Nat.lt_of_lt_of_le (h.sink n p hp) hm
  staff := h.staff
  journal e he i hi := Nat.lt_of_lt_of_le (h.journal e he i hi) hm

theorem spawn (h : Numbered r) (ho : t.Ordered) (ht : ∀ i ∈ t.numbers, i < r.fresh) (hw : t.isWorker = false) :
    Numbered (r.spawn t) := by
  refine (h.mono (Nat.le_succ r.fresh)).setTask (Nat.lt_succ_self r.fresh) ho ?_ ?_
  · exact fun i hi => Nat.lt_succ_of_lt (ht i hi)
  · rintro n c w rfl
    simp [Task.isWorker] at hw

theorem held (h : Numbered r) (ht : r.tasks.get? me = some t) (hc : t.outbound? = some c) : c < r.fresh :=
  (h.task me t ht).2 c (by simp [Task.numbers, hc])

theorem post (h : Numbered r) (ht : r.tasks.get? me = some t) (hc : t.post? = some c) : c < r.fresh :=
  (h.task me t ht).2 c (by simp [Task.numbers, hc])

/-! Turns -/

theorem sent (h : Numbered r) (ht : r.tasks.get? me = some t) (hs : Sent r me t.delivery? s) : Numbered s := by
  rcases hs with ha | ⟨d, hd, hs⟩
  · exact h.aside ha
  · have lt {c : Nat} (hc : d.channel? = some c) : c < r.fresh := h.held ht (by simp [Task.outbound?, hd, hc])
    cases hs with
    | enters hc ho =>
      apply (h.setChannel (lt hc) _).record
      intro i hi
      obtain rfl := List.mem_singleton.mp hi
      exact lt hc
    | blocks hc ho => exact h.setChannel (lt hc) _
    | withdraws hc => exact h.setChannel (lt hc) _

theorem take? (h : Numbered r) {x : Target} {task? : Option Nat} (hc : c < r.fresh)
    (ht : ∀ w, task? = some w → w < r.fresh) (hs : r.take? c task? = some (x, s)) : Numbered s := by
  obtain ⟨-, rfl⟩ := take?_eq hs
  refine { h with channels := h.channels.insert hc, journal := ?_ }
  intro e he
  rcases List.mem_cons.mp he with rfl | he
  · intro i hi
    rcases List.mem_cons.mp hi with rfl | hi
    · exact hc
    · exact ht i (by simpa using hi)
  · rcases List.mem_append.mp he with he | he
    · obtain ⟨b, -, rfl⟩ := List.mem_map.mp (List.mem_reverse.mp he)
      simpa [Event.numbers] using hc
    · exact h.journal e he

theorem leaveLine (h : Numbered r) (hc : c < r.fresh) (me : Nat) : Numbered (r.leaveLine me c) := h.setChannel hc _

theorem setStatus (h : Numbered r) {p : Pool} (hp : r.pools.get? n = some p) {r' : Relay} (h' : Numbered r')
    (hf : r'.fresh = r.fresh) (status : Collector.Status) : Numbered (r'.setStatus n p status) :=
  h'.setPool (hf ▸ h.pools.lt hp) { p with status } (hf ▸ h.sink n p hp)

theorem ship (h : Numbered r) {p : Pool} (hm : me < r.fresh) (hp : r.pools.get? n = some p) (m : Metric) :
    Numbered (r.ship me n p m) := by
  cases hf : p.pipeline.fate m with
  | filtered name =>
    simp only [Relay.ship, hf]
    exact h.setStatus hp h rfl _
  | refused problem =>
    simp only [Relay.ship, hf]
    exact h.setStatus hp h rfl _
  | payload text =>
    have hs := h.sink n p hp
    have ho : Numbered (r.countOffer p.sink) := { h with outlets := h.outlets.insert hs }
    rw [ship_payload hf]
    refine h.setStatus hp (ho.record ?_) rfl _
    intro i hi
    simp only [Event.numbers, List.mem_cons, List.not_mem_nil, or_false] at hi
    rcases hi with rfl | rfl
    · exact hs
    · exact hm

theorem ship_fresh (r : Relay) (me n : Nat) (p : Pool) (m : Metric) : (r.ship me n p m).fresh = r.fresh := by
  rw [Relay.ship]
  split <;> rfl

theorem take?_fresh {x : Target} {task? : Option Nat} (hs : r.take? c task? = some (x, s)) :
    s.fresh = r.fresh := by
  obtain ⟨-, rfl⟩ := take?_eq hs
  rfl

theorem worked {p : Pool} {w : Worker} {t' : Task} (h : Numbered r) (hm : me < r.fresh) (hc : c < r.fresh)
    (hp : r.pools.get? n = some p) (hw : Worked r me n c p w s t') : Numbered s ∧ s.fresh = r.fresh := by
  cases hw with
  | takes hw inLine ht =>
    have hf := take?_fresh ht
    have hn := h.take? hc (fun w hw => Option.some.inj hw ▸ hm) ht
    cases inLine
    · exact ⟨hn, hf⟩
    · exact ⟨hn.leaveLine (hf ▸ hc) me, hf⟩
  | waits hw ht =>
    split
    · exact ⟨h, rfl⟩
    · exact ⟨h.setChannel hc _, rfl⟩
  | leaves hw inLine ht =>
    cases inLine
    · exact ⟨h, rfl⟩
    · exact ⟨h.leaveLine hc me, rfl⟩
  | scrapes ht => exact ⟨h, rfl⟩
  | misses ht =>
    refine ⟨(h.setStatus hp h rfl _).record ?_, rfl⟩
    intro i hi
    obtain rfl := List.mem_singleton.mp hi
    exact hm
  | ships => exact ⟨h.ship hm hp _, ship_fresh r me n p _⟩
  | ends => exact ⟨h.record (by simpa [Event.numbers] using hm), rfl⟩

theorem ship_tasks (r : Relay) (me n : Nat) (p : Pool) (m : Metric) : (r.ship me n p m).tasks = r.tasks := by
  rw [Relay.ship]
  split <;> rfl

theorem worked_tasks {p : Pool} {w : Worker} {t' : Task} (hw : Worked r me n c p w s t') : s.tasks = r.tasks := by
  cases hw with
  | takes hw inLine ht =>
    obtain ⟨-, rfl⟩ := take?_eq ht
    cases inLine <;> rfl
  | waits hw ht => split <;> rfl
  | leaves hw inLine ht => cases inLine <;> rfl
  | scrapes ht => rfl
  | misses ht => rfl
  | ships => exact ship_tasks r me n p _
  | ends => rfl

theorem worked_task {p : Pool} {w : Worker} {t' : Task} (hw : Worked r me n c p w s t') :
    (∃ w', t' = .worker n c w') ∨ t' = finished := by
  cases hw <;> simp

theorem sent_fresh {d? : Option Delivery} (hs : Sent r me d? s) : s.fresh = r.fresh := by
  rcases hs with ⟨scouts, board, remarks, _, _⟩ | ⟨d, _, hs⟩
  · rfl
  · cases hs <;> rfl

theorem recordMember (h : Numbered r) {m : Member} (hm : m.number < r.fresh) {e : Event}
    (he : e.numbers = [m.number]) : Numbered (r.record e) := by
  apply h.record
  intro i hi
  rw [he] at hi
  obtain rfl := List.mem_singleton.mp hi
  exact hm

theorem stopSource (h : Numbered r) {x : Source} (hx : x.member.number < r.fresh) :
    Numbered (r.stopSource x) ∧ (r.stopSource x).fresh = r.fresh := by
  cases x with
  | probe n collectors => exact ⟨h.recordMember hx rfl, rfl⟩
  | scout n =>
    simp only [Relay.stopSource]
    split
    · split
      · exact ⟨h, rfl⟩
      · exact ⟨(h.scoutsSet hx _).recordMember (m := .scout n) hx rfl, rfl⟩
    · exact ⟨h, rfl⟩

theorem alike (h : Numbered r) {tasks : Dict Nat Task} (ha : ∀ w, Alike (r.tasks.get? w) (tasks.get? w)) :
    Numbered { r with tasks } := by
  refine { h with tasks := ?_, task := ?_, staff := ?_ }
  · intro i hi
    exact (ha i).none_iff.mp (h.tasks i hi)
  · intro w t ht
    have hw := ha w
    rw [show tasks.get? w = some t from ht] at hw
    generalize hu : r.tasks.get? w = u? at hw
    cases hw with
    | same => exact h.task w t hu
    | reporters =>
      exact ⟨by simp [Task.Ordered, Task.acts],
        by simp [Task.numbers, Task.post?, Task.outbound?, Task.delivery?, Task.pending, Task.acts]⟩
  · intro w n c wk ht
    have hw := ha w
    rw [show tasks.get? w = some _ from ht] at hw
    exact h.staff w n c wk (hw.eq_of_ne (by simp))

theorem closeDrain (h : Numbered r) {d : Drain} (hd : d.member.number < r.fresh) :
    Numbered (r.closeDrain d).1 ∧ (r.closeDrain d).1.fresh = r.fresh ∧ ∀ a ∈ (r.closeDrain d).2,
    a.isPlain = true := by
  cases d with
  | probe n keeps =>
    rw [closeDrain_probe]
    refine ⟨?_, rfl, by simp⟩
    have hn : Numbered { r with probes := if keeps then r.probes else r.probes.erase n } := { h with }
    exact hn.recordMember hd rfl
  | pool n =>
    cases hp : r.pools.get? n with
    | none => simp [Relay.closeDrain, hp, h]
    | some p =>
      rw [closeDrain_pool hp]
      refine ⟨?_, rfl, by simp [Act.isPlain]⟩
      have hn := (h.alike (abortReporter_alike r p)).setPool (h.pools.lt hp)
        { p with workers := [], reporter := none } (h.sink n p hp)
      exact recordMember (m := .pool n) (e := .closed (.pool n)) hn hd rfl

theorem routine {t' : Task} (h : Numbered r) (ht : r.tasks.get? me = some t) (hr : Routine r t t') :
    ∀ i ∈ t'.numbers, i < r.fresh := by
  intro i hi
  have hp : t'.post? = none := by
    have := hr.plain'
    cases t' <;> simp_all [Task.isWorker, Task.post?]
  simp only [Task.numbers, hp, hr.pending', Option.toList_none, List.nil_append, List.map_nil, List.append_nil,
    Option.mem_toList] at hi
  rcases hr.held i hi with hh | ⟨k, hk⟩
  · exact h.held ht hh
  · exact h.given k i hk

theorem numbers_call {a : Act} {rest : List Act} {tolerant : Bool} (hr : ∀ b ∈ rest, b.isPlain = true)
    (hd : (Task.call (a :: rest) tolerant).delivery? = none) :
    (Task.call (a :: rest) tolerant).numbers = (a.member?.map Member.number).toList := by
  have hp : (Task.call (a :: rest) tolerant).pending = a.member?.toList := pending_ordered hr
  simp only [Task.numbers, Task.post?, Task.outbound?, hd, hp]
  cases a.member? <;> rfl

theorem numbers_plain {acts : List Act} {tolerant : Bool} (h : ∀ a ∈ acts, a.isPlain = true) :
    (Task.call acts tolerant).numbers = [] := by
  simp [Task.numbers, Task.post?, Task.outbound?, delivery?_plain h, pending_plain h]

theorem turned_staff {t' : Task} (h : Numbered s) (ht : r.tasks.get? me = some t) (htu : Turned r me t s t') :
    ∀ n c w, t' = .worker n c w → (s.pools.get? n).isSome := by
  cases htu with
  | routine hs hr =>
    rintro n c w rfl
    simpa [Task.isWorker] using hr.plain'
  | @works n c w p s t' hp hw =>
    rintro n' c' w' rfl
    have hn : (s.pools.get? n).isSome := h.staff me n c w (by rw [worked_tasks hw, ht])
    rcases worked_task hw with ⟨w'', he⟩ | he
    · obtain ⟨rfl, -, -⟩ := Task.worker.inj he
      exact hn
    · simp [finished] at he
  | strays hp => simp [finished]
  | _ => simp

theorem turned {t' : Task} (h : Numbered r) (ht : r.tasks.get? me = some t) (htu : Turned r me t s t') :
    Numbered s ∧ s.fresh = r.fresh ∧ t'.Ordered ∧ ∀ i ∈ t'.numbers, i < r.fresh := by
  have hm := h.tasks.lt ht
  have hto := (h.task me t ht).1
  have finishedFits : finished.Ordered ∧ ∀ i ∈ finished.numbers, i < r.fresh := by
    simp [finished, Task.Ordered, Task.acts, Task.numbers, Task.post?, Task.outbound?, Task.delivery?,
      Task.pending]
  cases htu with
  | routine hs hr => exact ⟨h.sent ht hs, sent_fresh hs, hr.ordered, h.routine ht hr⟩
  | works hp hw =>
    have hc := h.post ht rfl
    obtain ⟨hn, hf⟩ := h.worked hm hc hp hw
    refine ⟨hn, hf, ?_⟩
    rcases worked_task hw with ⟨w', rfl⟩ | rfl
    · simpa [Task.Ordered, Task.acts, Task.numbers, Task.post?, Task.outbound?, Task.delivery?,
        Task.pending] using hc
    · exact finishedFits
  | strays hp => exact ⟨h, rfl, finishedFits⟩
  | measures hp =>
    refine ⟨h.setStatus hp h rfl _, rfl, ?_⟩
    simp [Task.Ordered, Task.acts, Task.numbers, Task.post?, Task.outbound?, Task.delivery?, Task.pending]
  | @removesSource k x rest tolerant hx =>
    have hr : ∀ b ∈ .joinSource x :: .forgetDiscovery k :: rest, b.isPlain = true := by
      simpa [Act.isPlain, Task.Ordered, Task.acts] using hto
    refine ⟨{ h with sources := Dict.forall_erase h.sources }, rfl, hr, ?_⟩
    rw [numbers_call hr rfl]
    simpa [Act.member?] using h.sources k x hx
  | @removesDrain k d rest tolerant hd =>
    have hr : ∀ b ∈ .forgetCollector k :: rest, b.isPlain = true := by
      simpa [Act.isPlain, Task.Ordered, Task.acts] using hto
    refine ⟨{ h with given := Dict.forall_erase h.given, drains := Dict.forall_erase h.drains }, rfl, hr, ?_⟩
    rw [numbers_call hr rfl]
    simpa [Act.member?] using h.drains k d hd
  | @stopsSource x rest tolerant =>
    have hto : ∀ b ∈ rest, b.isPlain = true := hto
    have hx : x.member.number < r.fresh := by
      apply (h.task me _ ht).2 _
      rw [numbers_call hto rfl]
      simp [Act.member?]
    obtain ⟨hn, hf⟩ := h.stopSource hx
    refine ⟨hn, hf, fun b hb => hto b (List.mem_of_mem_tail hb), ?_⟩
    rw [numbers_plain hto]
    simp
  | @closesDrain d rest tolerant =>
    have hto : ∀ b ∈ rest, b.isPlain = true := hto
    have hd : d.member.number < r.fresh := by
      apply (h.task me _ ht).2 _
      rw [numbers_call hto rfl]
      simp [Act.member?]
    obtain ⟨hn, hf, hp⟩ := h.closeDrain hd
    have hr : ∀ b ∈ (r.closeDrain d).2 ++ rest, b.isPlain = true :=
      fun b hb => (List.mem_append.mp hb).elim (hp b) (hto b)
    refine ⟨hn, hf, fun b hb => hr b (List.mem_of_mem_tail hb), ?_⟩
    rw [numbers_plain hr]
    simp

end Numbered

theorem step_turned (h : Numbered r) (hs : r.step me = some s) : ∃ t t' s', r.tasks.get? me = some t ∧
    t.isEnded = false ∧ Turned r me t s' t' ∧ s = s'.setTask me t' := by
  obtain ⟨t, ht, hs⟩ := Option.bind_eq_some_iff.mp hs
  obtain ⟨⟨s', t'⟩, htu, rfl⟩ := Option.map_eq_some_iff.mp hs
  refine ⟨t, t', s', ht, ?_, turn_turned htu (h.task me t ht).1, rfl⟩
  cases t with
  | ended o => simp [turn] at htu
  | _ => rfl

namespace Numbered

theorem step (h : Numbered r) (hs : r.step me = some s) : Numbered s ∧ s.fresh = r.fresh := by
  obtain ⟨t, t', s', ht, -, htu, rfl⟩ := step_turned h hs
  obtain ⟨hn, hf, ho, hi⟩ := h.turned ht htu
  exact ⟨hn.setTask (hf ▸ h.tasks.lt ht) ho (hf ▸ hi) (hn.turned_staff ht htu), hf⟩

/-! Installing -/

theorem setRegistry (h : Numbered r) {registry : Registry}
    (hc : ∀ k c, registry.channels.get? k = some c → c < r.fresh)
    (hx : ∀ k x, registry.sources.get? k = some x → x.member.number < r.fresh)
    (hd : ∀ k d, registry.drains.get? k = some d → d.member.number < r.fresh) :
    Numbered (r.setRegistry registry) :=
  { h with given := hc, sources := hx, drains := hd }

theorem addOutlet (h : Numbered r) (accepts : Nat → Bool) : Numbered (r.addOutlet accepts).1 :=
  { h.mono (Nat.le_succ r.fresh) with outlets := h.outlets.insert_fresh }

theorem addPool (h : Numbered r) (k : Key) (spec : Collector.Spec) {sink : Nat} (hs : sink < r.fresh)
    (every : Option Nat) : Numbered (r.addPool k spec sink every).1 :=
  (h.mono (Nat.le_succ r.fresh)).setPool (Nat.lt_succ_self r.fresh) _ (Nat.lt_succ_of_lt hs)

theorem addScout (h : Numbered r) (k : Key) (spec : Discovery.Spec) (connected reports : Bool) :
    Numbered (r.addScout k spec connected reports).1 :=
  (h.mono (Nat.le_succ r.fresh)).scoutsSet (Nat.lt_succ_self r.fresh) _

theorem addProbe (h : Numbered r) : Numbered r.addProbe.1 := h.mono (Nat.le_succ r.fresh)

theorem openChannel (h : Numbered r) (k : Key) (size : Nat) :
    Numbered (r.openChannel k size).1 ∧ r.fresh ≤ (r.openChannel k size).1.fresh ∧
      (r.openChannel k size).2 < (r.openChannel k size).1.fresh := by
  rw [Relay.openChannel]
  split
  · rename_i c hc
    exact ⟨h, Nat.le_refl _, h.given k c hc⟩
  · have hn := (h.mono (Nat.le_succ r.fresh)).setChannel (Nat.lt_succ_self r.fresh) (.ofBuffer size)
    have hgiven := Dict.forall_insert (k := k) hn.given (Nat.lt_succ_self r.fresh)
    exact ⟨hn.setRegistry hgiven hn.sources hn.drains, Nat.le_succ r.fresh, Nat.lt_succ_self r.fresh⟩

theorem stopDrain (h : Numbered r) {d : Drain} (hd : d.member.number < r.fresh) :
    Numbered (r.stopDrain d) ∧ r.fresh ≤ (r.stopDrain d).fresh := by
  cases d with
  | probe n keeps =>
    have hn : Numbered { r with probes := r.probes.erase n } := { h with }
    exact ⟨hn.recordMember hd rfl, Nat.le_refl _⟩
  | pool n =>
    cases hp : r.pools.get? n with
    | none => simp [Relay.stopDrain, hp, h]
    | some p =>
      cases hs : p.stopped with
      | true => simp [Relay.stopDrain, hp, hs, h]
      | false =>
        rw [stopDrain_pool hp hs]
        refine ⟨?_, Nat.le_succ r.fresh⟩
        have hn := (h.alike (abortReporter_alike r p)).setPool (h.pools.lt hp)
          { p with stopped := true, workers := [], reporter := none } (h.sink n p hp)
        have hr := recordMember (m := .pool n) (e := .stopped (.pool n)) hn hd rfl
        exact hr.spawn (t := .retirement p.sink p.workers) (by simp [Task.Ordered, Task.acts])
          (by simp [Task.numbers, Task.post?, Task.outbound?, Task.delivery?, Task.pending, Task.acts]) rfl

theorem unregisterDrain (h : Numbered r) (k : Key) : Numbered (r.setRegistry (r.withoutDrain k)) :=
  h.setRegistry h.given h.sources (Dict.forall_erase h.drains)

theorem unregisterSource (h : Numbered r) (k : Key) : Numbered (r.setRegistry (r.withoutSource k)) :=
  h.setRegistry h.given (Dict.forall_erase h.sources) h.drains

theorem retireDrain (h : Numbered r) (k : Key) :
    Numbered (r.retireDrain k) ∧ r.fresh ≤ (r.retireDrain k).fresh := by
  rw [Relay.retireDrain]
  split
  · rename_i d hd
    exact (h.unregisterDrain k).stopDrain (h.drains k d hd)
  · exact ⟨h, Nat.le_refl _⟩

theorem startDrain (h : Numbered r) {d : Drain} {c : Nat} (hd : d.member.number < r.fresh) (hc : c < r.fresh) :
    Numbered (r.startDrain c d) ∧ r.fresh ≤ (r.startDrain c d).fresh := by
  cases d with
  | probe n keeps =>
    have hn : Numbered { r with probes := r.probes.insert n c } := { h with }
    exact ⟨hn.recordMember hd rfl, Nat.le_refl _⟩
  | pool n =>
    cases hp : r.pools.get? n with
    | none => simp [Relay.startDrain, hp, h]
    | some p =>
      rw [startDrain_pool c hp]
      have hf : r.fresh ≤ r.fresh + p.size + p.reportEvery.isSome.toNat := by omega
      refine ⟨?_, hf⟩
      have hn := (recordMember (m := .pool n) (e := .started (.pool n)) h hd rfl).setPool (h.pools.lt hp)
        (r.manned p) (h.sink n p hp)
      refine { hn.mono hf with tasks := ?_, task := ?_, staff := ?_ }
      · intro i hi
        change r.fresh + p.size + p.reportEvery.isSome.toNat ≤ i at hi
        rw [get?_mustered, if_neg, if_neg]
        · exact h.tasks i (Nat.le_trans hf hi)
        · rintro ⟨hr, rfl⟩
          rw [hr, Bool.toNat_true] at hi
          omega
        · simp only [crew, List.mem_range'_1]
          omega
      · intro w t ht
        rw [show r.mustered n c p = _ from rfl, get?_mustered] at ht
        split at ht
        · obtain rfl := Option.some.inj ht
          refine ⟨by simp [Task.Ordered, Task.acts], ?_⟩
          have hc' := Nat.lt_of_lt_of_le hc hf
          simpa [Task.numbers, Task.post?, Task.outbound?, Task.delivery?, Task.pending, Task.acts] using hc'
        · split at ht
          · obtain rfl := Option.some.inj ht
            simp [Task.Ordered, Task.numbers, Task.post?, Task.outbound?, Task.delivery?, Task.pending, Task.acts]
          · exact (hn.mono hf).task w t ht
      · intro w n' c' wk ht
        rw [show r.mustered n c p = _ from rfl, get?_mustered] at ht
        split at ht
        · obtain ⟨rfl, -, -⟩ := Task.worker.inj (Option.some.inj ht)
          simp
        · split at ht
          · simp at ht
          · exact (hn.mono hf).staff w n' c' wk ht

theorem registerDrain (h : Numbered r) {d : Drain} (hd : d.member.number < r.fresh) (k : Key) :
    Numbered (r.registerDrain k d) :=
  h.setRegistry h.given h.sources (Dict.forall_insert h.drains hd)

theorem installDrain (h : Numbered r) {d : Drain} (hd : d.member.number < r.fresh) (k : Key) (size : Nat) :
    Numbered (r.installDrain k d size) := by
  rw [installDrain_eq]
  obtain ⟨ho, hf, hc⟩ := h.openChannel k size
  obtain ⟨hr, hf'⟩ := ho.retireDrain k
  have hd' := Nat.lt_of_lt_of_le hd (Nat.le_trans hf hf')
  obtain ⟨hs, hf''⟩ := hr.startDrain hd' (Nat.lt_of_lt_of_le hc hf')
  exact hs.registerDrain (Nat.lt_of_lt_of_le hd' hf'') k

theorem retireSource (h : Numbered r) (k : Key) :
    Numbered (r.retireSource k) ∧ (r.retireSource k).fresh = r.fresh := by
  rw [Relay.retireSource]
  split
  · rename_i x hx
    exact (h.unregisterSource k).stopSource (h.sources k x hx)
  · exact ⟨h, rfl⟩

theorem startSource (h : Numbered r) {x : Source} (hx : x.member.number < r.fresh) :
    Numbered (r.startSource x) ∧ r.fresh ≤ (r.startSource x).fresh := by
  cases x with
  | probe n collectors => exact ⟨h.recordMember hx rfl, Nat.le_refl _⟩
  | scout n =>
    cases hs : r.scouts.get? n with
    | none => simp [Relay.startSource, hs, h]
    | some x =>
      obtain ⟨x', -, he⟩ := startSource_scout hs
      rw [he]
      refine ⟨?_, Nat.le_succ r.fresh⟩
      have hr := recordMember (m := .scout n) (e := .started (.scout n)) (h.scoutsSet (h.scouts.lt hs) x') hx rfl
      refine hr.spawn (t := r.starting n x) ?_ ?_ ?_
      · rw [starting]
        split <;> simp [Task.Ordered, Task.acts]
      · rw [starting]
        split <;> simp [Task.numbers, Task.post?, Task.outbound?, Task.delivery?, Task.pending, Task.acts]
      · rw [starting]
        split <;> rfl

theorem registerSource (h : Numbered r) {x : Source} (hx : x.member.number < r.fresh) (k : Key) :
    Numbered (r.registerSource k x) :=
  h.setRegistry h.given (Dict.forall_insert h.sources hx) h.drains

theorem installSource (h : Numbered r) {x : Source} (hx : x.member.number < r.fresh) (k : Key) :
    Numbered (r.installSource k x) := by
  rw [installSource_eq]
  obtain ⟨hr, hf⟩ := h.retireSource k
  have hx' : x.member.number < (r.retireSource k).fresh := hf ▸ hx
  obtain ⟨hs, hf'⟩ := hr.startSource hx'
  exact hs.registerSource (Nat.lt_of_lt_of_le hx' hf') k

theorem call (h : Numbered r) (c : Call) : Numbered (r.call (c.acts r) c.isTolerant).1 := by
  refine h.spawn ?_ ?_ rfl
  · cases c <;> simp [Task.Ordered, Task.acts, Call.acts, sendCall, shutdownCall, Act.isPlain]
  · cases c <;> simp [Task.numbers, Task.post?, Task.outbound?, Task.delivery?, Task.pending,
      Task.acts, Call.acts, sendCall, shutdownCall, Act.member?, Delivery.start, Delivery.channel?,
      Cycle.delivery?]

theorem move {m : Move} (h : Numbered r) (hm : r.move m = some s) : Numbered s := by
  cases m with
  | turn me => exact (h.step hm).1
  | call c =>
    obtain rfl := Option.some.inj hm
    exact h.call c
  | addDiscovery k spec connected reports =>
    obtain rfl := Option.some.inj hm
    exact installSource (x := .scout r.fresh) (h.addScout k spec connected reports) (Nat.lt_succ_self r.fresh) k
  | addPool k spec size accepts every =>
    obtain rfl := Option.some.inj hm
    have hp := (h.addOutlet accepts).addPool k spec (Nat.lt_succ_self r.fresh) every
    exact installDrain (d := .pool (r.fresh + 1)) hp (Nat.lt_succ_self (r.fresh + 1)) k size
  | addProbeSource k collectors =>
    obtain rfl := Option.some.inj hm
    exact installSource (x := .probe r.fresh collectors) h.addProbe (Nat.lt_succ_self r.fresh) k
  | addProbeDrain k size keeps =>
    obtain rfl := Option.some.inj hm
    exact installDrain (d := .probe r.fresh keeps) h.addProbe (Nat.lt_succ_self r.fresh) k size
  | surround inventory outage network refusing =>
    obtain rfl := Option.some.inj hm
    exact { h with }
  | elapse time =>
    obtain rfl := Option.some.inj hm
    exact { h with }

end Numbered

theorem Reachable.numbered (h : Reachable r) : Numbered r := h.holds Numbered.start fun _ _ _ _ h hm => h.move hm

end ScrapeRelay.Relay
