import Mathlib.Data.List.Basic
import ScrapeRelay.Proofs.Relay.Crews

/-!
The lines of a channel. Nobody stands in line to send while somebody stands in line to take, and each of those
who take may be sent one target more than the channel has room for. So a queue is never longer than its
capacity or the number of workers there, whichever is more.
-/

namespace ScrapeRelay.Relay

namespace Channel

structure Orderly (ch : Channel) (most : Nat) : Prop where
  nodup : ch.waiting.Nodup
  exclusive : ch.blocked ≠ [] → ch.waiting = []
  bound : ch.queue.length + ch.waiting.length ≤ max ch.capacity most

namespace Orderly

variable {ch ch' : Channel} {most more w : Nat} {x : Target}

theorem ofBuffer (size most : Nat) : (Channel.ofBuffer size).Orderly most :=
  ⟨List.nodup_nil, fun _ => rfl, Nat.zero_le _⟩

theorem mono (h : ch.Orderly most) (hm : most ≤ more) : ch.Orderly more :=
  ⟨h.nodup, h.exclusive, Nat.le_trans h.bound (by omega)⟩

theorem offer? (h : ch.Orderly most) (ho : ch.offer? x = some ch') :
    ch'.Orderly most ∧ ch'.waiting ⊆ ch.waiting ∧ ch'.capacity = ch.capacity := by
  have hb := h.bound
  rw [Channel.offer?] at ho
  split at ho
  · rename_i w rest hw
    obtain rfl := Option.some.inj ho
    refine ⟨⟨?_, ?_, ?_⟩, ?_, rfl⟩
    · exact (List.nodup_cons.mp (hw ▸ h.nodup)).2
    · intro hne
      have := h.exclusive hne
      simp [hw] at this
    · simp only [hw, List.length_cons, List.length_append, List.length_nil] at hb ⊢
      omega
    · rw [hw]
      exact List.subset_cons_self w rest
  · rename_i hw
    split at ho
    · rename_i hroom
      obtain rfl := Option.some.inj ho
      refine ⟨⟨h.nodup, h.exclusive, ?_⟩, List.Subset.refl _, rfl⟩
      simp only [depth] at hroom
      simp only [hw, List.length_append, List.length_cons, List.length_nil]
      omega
    · simp at ho

theorem block (h : ch.Orderly most) (ho : ch.offer? x = none) (sender : Nat) :
    (ch.block sender x).Orderly most := by
  refine ⟨h.nodup, fun _ => ?_, h.bound⟩
  rw [Channel.offer?] at ho
  split at ho
  · simp at ho
  · assumption

theorem withdraw (h : ch.Orderly most) (sender : Nat) : (ch.withdraw sender).Orderly most := by
  refine ⟨h.nodup, fun hne => h.exclusive fun he => hne ?_, h.bound⟩
  simp [Channel.withdraw, he]

theorem take (h : ch.Orderly most) (hx : ch.next? = some x) : ch.take.Orderly most := by
  have hb := h.bound
  have hlen : ch.take.queue.length + 1 =
      ch.queue.length + (ch.blocked.take (ch.capacity + 1 - ch.queue.length)).length := by
    have := congrArg List.length (next?_queue hx)
    simpa [admitted, depth] using this
  refine ⟨h.nodup, ?_, ?_⟩
  · intro hne
    refine h.exclusive fun he => hne ?_
    simp [Channel.take, refill, he]
  · change ch.take.queue.length + ch.waiting.length ≤ max ch.capacity most
    rw [List.length_take] at hlen
    by_cases hne : ch.blocked = []
    · rw [hne, List.length_nil] at hlen
      omega
    · rw [h.exclusive hne, List.length_nil] at hb ⊢
      omega

theorem await (h : ch.Orderly most) (hn : ch.next? = none) (hw : ch.isWaiting w = false)
    (hm : ch.waiting.length < most) : (ch.await w).Orderly most := by
  obtain ⟨hq, hb⟩ := next?_empty.mp hn
  refine ⟨?_, fun hne => absurd hb hne, ?_⟩
  · refine List.nodup_append.mpr ⟨h.nodup, List.nodup_singleton w, ?_⟩
    rintro v hv u hu rfl
    obtain rfl := List.mem_singleton.mp hu
    simp [isWaiting, hv] at hw
  · simp only [Channel.await, hq, List.length_append, List.length_cons, List.length_nil]
    omega

theorem leave (h : ch.Orderly most) (w : Nat) :
    (ch.leave w).Orderly most ∧ (ch.leave w).waiting ⊆ ch.waiting ∧
    w ∉ (ch.leave w).waiting ∧ (ch.leave w).capacity = ch.capacity := by
  have hb := h.bound
  rw [Channel.leave]
  split
  · refine ⟨⟨h.nodup.filter _, fun hne => ?_, ?_⟩, List.filter_sublist.subset, by simp, rfl⟩
    · simp [h.exclusive hne]
    · have := List.length_filter_le (· != w) ch.waiting
      simp only
      omega
  · rename_i hw
    split
    · exact ⟨h, List.Subset.refl _, by simpa [isWaiting] using hw, rfl⟩
    · refine ⟨⟨List.nodup_nil, fun _ => rfl, ?_⟩, List.nil_subset _, by simp, rfl⟩
      simp only [List.length_nil]
      omega

end Orderly

end Channel

variable {r s : Relay} {me n c : Nat} {t t' : Task} {k : Key}

/-! Workers are hired for new pools only. -/

theorem turned_alike (h : Turned r me t s t') (w : Nat) : Alike (r.tasks.get? w) (s.tasks.get? w) := by
  have same {s : Relay} (ht : s.tasks = r.tasks) : Alike (r.tasks.get? w) (s.tasks.get? w) := by
    rw [ht]
    exact .same _
  cases h with
  | routine hs => exact same (Apart.sent hs).tasks
  | works hp hw => exact same (Numbered.worked_tasks hw)
  | strays | measures | removesSource | removesDrain => exact .same _
  | stopsSource => exact same (stopSource_tasks ..)
  | closesDrain => exact closeDrain_alike r _ w

theorem step_worker {w : Nat} {x : Worker} (hn : Numbered r) (hs : r.step me = some s)
    (ht : s.tasks.get? w = some (.worker n c x)) : ∃ x, r.tasks.get? w = some (.worker n c x) := by
  obtain ⟨t, t', s', hme, -, htu, rfl⟩ := step_turned hn hs
  rcases Dict.of_get?_insert ht with ⟨rfl, rfl⟩ | ⟨-, ht⟩
  · cases htu with
    | routine _ hr => exact absurd hr.plain' (by simp [Task.isWorker])
    | works hp hw =>
      rcases Numbered.worked_task hw with ⟨x', he⟩ | he
      · obtain ⟨rfl, rfl, -⟩ := Task.worker.inj he
        exact ⟨_, hme⟩
      · simp [finished] at he
  · have ha := turned_alike htu w
    rw [ht] at ha
    exact ⟨x, ha.eq_of_ne (by simp)⟩

theorem spawn_worker {w : Nat} {x : Worker} (hw : t.isWorker = false)
    (ht : (r.spawn t).tasks.get? w = some (.worker n c x)) : r.tasks.get? w = some (.worker n c x) := by
  rcases Dict.of_get?_insert ht with ⟨-, rfl⟩ | ⟨-, ht⟩
  · cases hw
  · exact ht

theorem installSource_worker {w : Nat} {x : Worker} (y : Source)
    (ht : (r.installSource k y).tasks.get? w = some (.worker n c x)) : r.tasks.get? w = some (.worker n c x) := by
  rw [installSource_eq] at ht
  have hr : (r.retireSource k).tasks = r.tasks := by
    rw [retireSource]
    split
    · exact stopSource_tasks ..
    · rfl
  rw [← hr]
  change ((r.retireSource k).startSource y).tasks.get? w = _ at ht
  generalize r.retireSource k = r' at ht ⊢
  cases y with
  | probe i collectors => exact ht
  | scout i =>
    cases hs : r'.scouts.get? i with
    | none => simpa only [startSource, hs] using ht
    | some sc =>
      obtain ⟨sc', -, he⟩ := startSource_scout hs
      rw [he] at ht
      refine spawn_worker (t := r'.starting i sc) ?_ ht
      rw [starting]
      split <;> rfl

theorem move_worker {m : Move} {w : Nat} {x : Worker} (hn : Numbered r) (hm : r.move m = some s)
    (hp : ∀ k spec size accepts every, m ≠ .addPool k spec size accepts every)
    (ht : s.tasks.get? w = some (.worker n c x)) : ∃ x, r.tasks.get? w = some (.worker n c x) := by
  cases m with
  | turn me => exact step_worker hn hm ht
  | call d =>
    obtain rfl := Option.some.inj hm
    exact ⟨x, spawn_worker rfl ht⟩
  | addDiscovery k spec connected reports =>
    obtain rfl := Option.some.inj hm
    exact ⟨x, installSource_worker (r := (r.addScout k spec connected reports).1) (k := k) (.scout r.fresh) ht⟩
  | addPool k spec size accepts every => exact absurd rfl (hp k spec size accepts every)
  | addProbeSource k collectors =>
    obtain rfl := Option.some.inj hm
    exact ⟨x, installSource_worker (r := r.addProbe.1) (k := k) (.probe r.fresh collectors) ht⟩
  | addProbeDrain k size keeps =>
    obtain rfl := Option.some.inj hm
    refine ⟨x, ?_⟩
    change (r.addProbe.1.installDrain k (.probe r.addProbe.2 keeps) size).tasks.get? w = _ at ht
    rw [installDrain_eq, startDrain_probe] at ht
    have hr := retireDrain_worker (r := (r.addProbe.1.openChannel k size).1) k ht
    rwa [openChannel_tasks] at hr
  | surround inventory outage network refusing =>
    obtain rfl := Option.some.inj hm
    exact ⟨x, ht⟩
  | elapse time =>
    obtain rfl := Option.some.inj hm
    exact ⟨x, ht⟩

/-! The channel of a pool -/

/-- Who waits at a channel is a worker there, of whom there are not too many. -/
structure Attended (r : Relay) (c room most : Nat) : Prop where
  made : (r.channels.get? c).isSome = true
  capacity : (r.channel c).capacity = room
  orderly : (r.channel c).Orderly most
  waiters : ∀ w ∈ (r.channel c).waiting, ∃ n, r.tasks.get? w = some (.worker n c .waiting)
  staff : ∀ ws : List Nat, ws.Nodup → (∀ w ∈ ws, ∃ n x, r.tasks.get? w = some (.worker n c x)) →
    ws.length ≤ most

variable {room most : Nat}

theorem get?_channel {ch : Channel} (h : r.channels.get? c = some ch) : r.channel c = ch := by
  rw [channel, Dict.getD, h]
  rfl

namespace Attended

theorem not_waiting (h : Attended r c room most) (ht : r.tasks.get? me = some t)
    (hw : ∀ n, t ≠ .worker n c .waiting) : me ∉ (r.channel c).waiting := by
  intro hm
  obtain ⟨n, hn⟩ := h.waiters me hm
  exact hw n (Option.some.inj (ht.symm.trans hn))

theorem turned (h : Attended r c room most) (hn : Numbered r) (hs : r.step me = some s)
    (hmade : (s.channels.get? c).isSome = true) (hc : (s.channel c).capacity = (r.channel c).capacity)
    (ho : (s.channel c).Orderly most)
    (hw : ∀ w ∈ (s.channel c).waiting, w ∈ (r.channel c).waiting ∧ w ≠ me ∨
      ∃ n, s.tasks.get? w = some (.worker n c .waiting)) : Attended s c room most := by
  refine ⟨hmade, hc.trans h.capacity, ho, ?_, ?_⟩
  · intro w hm
    rcases hw w hm with ⟨hm, hne⟩ | hm
    · obtain ⟨n, ht⟩ := h.waiters w hm
      exact ⟨n, task_kept hn (m := .turn me) hs ht (by simpa using hne.symm) (by simp)⟩
    · exact hm
  · intro ws hnd hws
    apply h.staff ws hnd
    intro w hm
    obtain ⟨n, x, ht⟩ := hws w hm
    exact ⟨n, step_worker hn hs ht⟩

theorem same (h : Attended r c room most) (hn : Numbered r) (hs : r.step me = some s)
    (hc : s.channels.get? c = r.channels.get? c) (hme : me ∉ (r.channel c).waiting) :
    Attended s c room most := by
  have hch : s.channel c = r.channel c := by simp only [channel, Dict.getD, hc]
  apply h.turned hn hs (hc ▸ h.made) (by rw [hch]) (hch ▸ h.orderly)
  intro w hw
  rw [hch] at hw
  refine .inl ⟨hw, ?_⟩
  rintro rfl
  exact hme hw

theorem changed {ch : Channel} (h : Attended r c room most) (hn : Numbered r) (hs : r.step me = some s)
    (hc : s.channels.get? c = some ch) (ho : ch.Orderly most) (hsub : ch.waiting ⊆ (r.channel c).waiting)
    (hcap : ch.capacity = (r.channel c).capacity) (hme : me ∉ ch.waiting) : Attended s c room most := by
  have hch : s.channel c = ch := get?_channel hc
  apply h.turned hn hs (by rw [hc]; rfl) (hch ▸ hcap) (hch ▸ ho)
  intro w hw
  rw [hch] at hw
  refine .inl ⟨hsub hw, ?_⟩
  rintro rfl
  exact hme hw

theorem delivered {d : Delivery} (h : Attended r c room most) (hn : Numbered r) (ht : r.tasks.get? me = some t)
    (hw : t.isWorker = false) (hd : Delivered r me d s) (hs : r.step me = some (s.setTask me t')) :
    Attended (s.setTask me t') c room most := by
  have hme : me ∉ (r.channel c).waiting := by
    apply h.not_waiting ht
    rintro n rfl
    simp [Task.isWorker] at hw
  have changed {ch : Channel} (ho : ch.Orderly most) (hsub : ch.waiting ⊆ (r.channel c).waiting)
      (hcap : ch.capacity = (r.channel c).capacity) (hc : s.channels = r.channels.insert c ch) :
      Attended (s.setTask me t') c room most :=
    h.changed hn hs (by simp [setTask, hc]) ho hsub hcap fun hm => hme (hsub hm)
  have other {i : Nat} {ch : Channel} (hi : c ≠ i) (hc : s.channels = r.channels.insert i ch) :
      Attended (s.setTask me t') c room most := by
    refine h.same hn hs ?_ hme
    simp [setTask, hc, hi]
  cases hd with
  | @enters i x ch hc ho =>
    by_cases hi : c = i
    · subst hi
      obtain ⟨ho', hsub, hcap⟩ := h.orderly.offer? ho
      exact changed ho' hsub hcap rfl
    · exact other hi rfl
  | @blocks i x hc ho =>
    by_cases hi : c = i
    · subst hi
      exact changed (h.orderly.block ho me) (List.Subset.refl _) rfl rfl
    · exact other hi rfl
  | @withdraws i hc =>
    by_cases hi : c = i
    · subst hi
      exact changed (h.orderly.withdraw me) (List.Subset.refl _) rfl rfl
    · exact other hi rfl

theorem elsewhere {p : Pool} {w : Worker} {i : Nat} (hw : Worked r me n i p w s t') (hi : c ≠ i) :
    s.channels.get? c = r.channels.get? c := by
  have left {r : Relay} : (r.leaveLine me i).channels.get? c = r.channels.get? c := by
    simp [leaveLine, setChannel, hi]
  cases hw with
  | @takes w x s' hw inLine hs =>
    have hc : s'.channels.get? c = r.channels.get? c := by
      rw [(take?_eq hs).2]
      simp [hi]
    cases inLine
    · exact hc
    · exact left.trans hc
  | waits hw hs =>
    split
    · rfl
    · simp [setChannel, hi]
  | leaves hw inLine hs =>
    cases inLine
    · rfl
    · exact left
  | scrapes | misses | ends => rfl
  | ships =>
    rw [ship]
    split <;> rfl

theorem spare {w : Worker} (h : Attended r c room most) (ht : r.tasks.get? me = some (.worker n c w))
    (hme : me ∉ (r.channel c).waiting) : (r.channel c).waiting.length < most := by
  refine h.staff (me :: (r.channel c).waiting) (List.nodup_cons.mpr ⟨hme, h.orderly.nodup⟩) fun v hv => ?_
  rcases List.mem_cons.mp hv with rfl | hv
  · exact ⟨n, w, ht⟩
  · obtain ⟨m, hm⟩ := h.waiters v hv
    exact ⟨m, _, hm⟩

theorem waits {w : Worker} (h : Attended r c room most) (hn : Numbered r)
    (ht : r.tasks.get? me = some (.worker n c w)) (htake : r.take? c (some me) = none)
    (hs' : s = if (r.channel c).isWaiting me then r else r.setChannel c ((r.channel c).await me))
    (hs : r.step me = some (s.setTask me (.worker n c .waiting))) :
    Attended (s.setTask me (.worker n c .waiting)) c room most := by
  have hnext : (r.channel c).next? = none := Option.map_eq_none_iff.mp htake
  have mine : ∃ m, (s.setTask me (.worker n c .waiting)).tasks.get? me = some (.worker m c .waiting) :=
    ⟨n, by simp [setTask]⟩
  cases hwait : (r.channel c).isWaiting me with
  | true =>
    rw [hwait, if_pos rfl] at hs'
    subst hs'
    apply h.turned hn hs h.made rfl h.orderly
    intro v hv
    by_cases hme : v = me
    · exact .inr (hme ▸ mine)
    · exact .inl ⟨hv, hme⟩
  | false =>
    have hme : me ∉ (r.channel c).waiting := by simpa [Channel.isWaiting] using hwait
    have hc : (s.setTask me (.worker n c .waiting)).channels.get? c = some ((r.channel c).await me) := by
      simp [hs', hwait, setTask, setChannel]
    have ho := h.orderly.await hnext hwait (h.spare ht hme)
    rw [← get?_channel hc] at ho
    refine h.turned hn hs (by rw [hc]; rfl) (by rw [get?_channel hc]; rfl) ho fun v hv => ?_
    rw [get?_channel hc] at hv
    rcases List.mem_append.mp hv with hin | hv
    · refine .inl ⟨hin, ?_⟩
      rintro rfl
      exact hme hin
    · obtain rfl := List.mem_singleton.mp hv
      exact .inr mine

theorem worked_here {p : Pool} {w : Worker} (h : Attended r c room most) (hn : Numbered r)
    (ht : r.tasks.get? me = some (.worker n c w)) (hw : Worked r me n c p w s t')
    (hs : r.step me = some (s.setTask me t')) : Attended (s.setTask me t') c room most := by
  have idle (hw : w ≠ .waiting) : me ∉ (r.channel c).waiting :=
    h.not_waiting ht fun m he => hw (Task.worker.inj he).2.2
  have left {r' : Relay} {ch : Channel} (hc : r'.channels.get? c = some ch) :
      (r'.leaveLine me c).channels.get? c = some (ch.leave me) := by
    simp [leaveLine, setChannel, get?_channel hc]
  cases hw with
  | @takes w x s' hw inLine htake hl =>
    obtain ⟨hx, hs'⟩ := take?_eq htake
    have hc : s'.channels.get? c = some (r.channel c).take := by simp [hs']
    have ho := h.orderly.take hx
    cases inLine with
    | false => exact h.changed hn hs hc ho (List.Subset.refl _) rfl (idle fun he => by simpa using hl he)
    | true =>
      obtain ⟨ho', hsub, hme, hcap⟩ := ho.leave me
      exact h.changed hn hs (left hc) ho' hsub hcap hme
  | @leaves w hw inLine hgo hl =>
    obtain ⟨ch, hc⟩ := Option.isSome_iff_exists.mp h.made
    have ho := get?_channel hc ▸ h.orderly
    cases inLine with
    | false => exact h.same hn hs rfl (idle fun he => by simpa using hl he)
    | true =>
      obtain ⟨ho', hsub, hme, hcap⟩ := ho.leave me
      exact h.changed hn hs (left hc) ho' (get?_channel hc ▸ hsub) (get?_channel hc ▸ hcap) hme
  | waits hw htake => exact h.waits hn ht htake rfl hs
  | scrapes | misses | ends => exact h.same hn hs rfl (idle (by simp))
  | ships =>
    refine h.same hn hs ?_ (idle (by simp))
    change (r.ship me n p _).channels.get? c = _
    rw [ship]
    split <;> rfl

theorem worked {p : Pool} {w : Worker} {i : Nat} (h : Attended r c room most) (hn : Numbered r)
    (ht : r.tasks.get? me = some (.worker n i w)) (hw : Worked r me n i p w s t')
    (hs : r.step me = some (s.setTask me t')) : Attended (s.setTask me t') c room most := by
  by_cases hi : c = i
  · subst hi
    exact h.worked_here hn ht hw hs
  · have hc : s.channels.get? c = r.channels.get? c := elsewhere hw hi
    refine h.same hn hs hc (h.not_waiting ht ?_)
    intro m he
    exact hi (Task.worker.inj he).2.1.symm

theorem step (h : Attended r c room most) (hn : Numbered r) (hs : r.step me = some s) :
    Attended s c room most := by
  obtain ⟨t, t', s', ht, -, hd, rfl⟩ := step_did hn hs
  cases hd with
  | nothing hq _ hw =>
    refine h.same hn hs ?_ (h.not_waiting ht ?_)
    · obtain ⟨ch, hc⟩ := Option.isSome_iff_exists.mp h.made
      exact (hq.channels c).resolve_right (by simp [hc])
    · rintro n rfl
      simp [Task.isWorker] at hw
  | delivered d _ hd hw => exact h.delivered hn ht hw hd hs
  | worked n i w p he _ hd =>
    subst he
    exact h.worked hn ht hd hs

theorem quiet {m : Move} {more : Nat} (h : Attended r c room most) (hn : Numbered r) (hm : r.move m = some s)
    (ht : ∀ me, m ≠ .turn me) (hle : most ≤ more)
    (hs : ∀ ws : List Nat, ws.Nodup → (∀ w ∈ ws, ∃ n x, s.tasks.get? w = some (.worker n c x)) →
      ws.length ≤ more) :
    Attended s c room more := by
  have hq := move_quiet hn hm ht
  obtain ⟨ch, hc⟩ := Option.isSome_iff_exists.mp h.made
  have hc' : s.channels.get? c = some ch := ((hq.channels c).resolve_right (by simp [hc])).trans hc
  have hch : s.channel c = r.channel c := (get?_channel hc').trans (get?_channel hc).symm
  refine ⟨by rw [hc']; rfl, hch ▸ h.capacity, hch ▸ h.orderly.mono hle, ?_, hs⟩
  intro w hw
  obtain ⟨n, hw⟩ := h.waiters w (hch ▸ hw)
  exact ⟨n, task_kept hn hm hw (ht w) (by simp)⟩

theorem addPool {spec : Collector.Spec} {size : Nat} {accepts : Nat → Bool} {every : Option Nat}
    (h : Attended r c room most) (hn : Numbered r) (hst : ∀ m, Stage r m)
    (hm : r.move (.addPool k spec size accepts every) = some s) :
    Attended s c room (if r.registry.channels.get? k = some c then max 1 spec.workers + most else most) := by
  apply h.quiet hn hm (by simp) (by split <;> omega)
  obtain rfl := Option.some.inj hm
  obtain ⟨q, a, -, hcrew, -, hnew, hold⟩ := putPool_crew hn hst k spec size accepts every
  intro ws hnd hws
  have old : (ws.filter fun w => !decide (w ∈ q.workers)).length ≤ most := by
    apply h.staff _ (hnd.filter _)
    intro w hw
    obtain ⟨hw, hq⟩ := List.mem_filter.mp hw
    obtain ⟨n, x, ht⟩ := hws w hw
    exact ⟨n, x, hold w n c x (by simpa using hq) ht⟩
  have new : (ws.filter (· ∈ q.workers)).length ≤
      if r.registry.channels.get? k = some c then max 1 spec.workers else 0 := by
    split
    · have hsub : ws.filter (· ∈ q.workers) ⊆ q.workers :=
        fun w hw => by simpa using (List.mem_filter.mp hw).2
      have hlen : q.workers.length = max 1 spec.workers := by rw [hcrew, List.length_range']
      exact hlen ▸ (hnd.filter _).length_le_of_subset hsub
    · rename_i hk
      refine Nat.le_of_eq (List.length_eq_zero_iff.mpr (List.filter_eq_nil_iff.mpr fun w hw hq => hk ?_))
      -- a worker of the new pool that is at this channel would show that the channel is the pool's
      obtain ⟨n, x, ht⟩ := hws w hw
      obtain ⟨-, hc, -⟩ := Task.worker.inj (Option.some.inj ((hnew w (by simpa using hq)).symm.trans ht))
      cases hkc : r.registry.channels.get? k with
      | some i =>
        rw [hkc] at hc
        exact congrArg some hc
      | none =>
        obtain ⟨ch, hget⟩ := Option.isSome_iff_exists.mp h.made
        have := hn.channels.lt hget
        rw [hkc] at hc
        change r.fresh + 2 = c at hc
        omega
  have all := ws.length_eq_length_filter_add (· ∈ q.workers)
  by_cases hk : r.registry.channels.get? k = some c
  · rw [if_pos hk] at new ⊢
    omega
  · rw [if_neg hk] at new ⊢
    omega

end Attended

/-! New channels -/

theorem stopDrain_channels (r : Relay) (d : Drain) : (r.stopDrain d).channels = r.channels := by
  cases d with
  | probe n keeps => rfl
  | pool n =>
    cases hp : r.pools.get? n with
    | none => simp only [stopDrain, hp]
    | some p =>
      cases hs : p.stopped with
      | true => simp [stopDrain, hp, hs]
      | false => rw [stopDrain_pool hp hs]

theorem startDrain_channels (r : Relay) (c : Nat) (d : Drain) : (r.startDrain c d).channels = r.channels := by
  cases d with
  | probe n keeps => rfl
  | pool n =>
    cases hp : r.pools.get? n with
    | none => simp only [startDrain, hp]
    | some p => rw [startDrain_pool c hp]

theorem installDrain_channel (d : Drain) (size : Nat) (hk : r.registry.channels.get? k = none) :
    (r.installDrain k d size).channels.get? r.fresh = some (.ofBuffer size) := by
  rw [installDrain_eq]
  change (startDrain _ _ d).channels.get? r.fresh = _
  rw [startDrain_channels]
  have hr (r : Relay) : (r.retireDrain k).channels = r.channels := by
    rw [retireDrain]
    split
    · exact stopDrain_channels ..
    · rfl
  rw [hr]
  simp [openChannel, hk, addChannel, setChannel]

theorem Attended.first {m : Move} {d : Drain} {room staff : Nat} (hn : Numbered r) (hst : ∀ m, Stage r m)
    (hm : r.move m = some s) (he : r.entered? m = some (.drain k d room staff))
    (hk : r.registry.channels.get? k = none) : Attended s (r.nextChannel m) (max 1 room) staff := by
  have start {ch : Channel} (hc : s.channels.get? (r.nextChannel m) = some ch) (hch : ch = .ofBuffer room)
      (hs : ∀ ws : List Nat, ws.Nodup →
        (∀ w ∈ ws, ∃ n x, s.tasks.get? w = some (.worker n (r.nextChannel m) x)) → ws.length ≤ staff) :
      Attended s (r.nextChannel m) (max 1 room) staff := by
    have hget := (get?_channel hc).trans hch
    refine ⟨by rw [hc]; rfl, by rw [hget]; rfl, hget ▸ .ofBuffer room staff, fun w hw => ?_, hs⟩
    rw [hget] at hw
    simp [Channel.ofBuffer] at hw
  have unused {w n c : Nat} {x : Worker} (hc : r.fresh ≤ c) (ht : r.tasks.get? w = some (.worker n c x)) :
      False :=
    Nat.not_le_of_lt (hn.post ht rfl) hc
  rcases entered?_drain he with ⟨spec, accepts, every, rfl, rfl, rfl⟩ | ⟨keeps, rfl, rfl, rfl⟩
  · have hc : s.channels.get? (r.fresh + 2) = some (.ofBuffer room) := by
      rw [← Option.some.inj hm]
      exact installDrain_channel (r := ((r.addOutlet accepts).1.addPool k spec r.fresh every).1) _ room hk
    apply start hc rfl
    intro ws hnd hws
    obtain rfl := Option.some.inj hm
    obtain ⟨q, a, -, hcrew, -, -, hold⟩ := putPool_crew hn hst k spec room accepts every
    have hlen : q.workers.length = max 1 spec.workers := by rw [hcrew, List.length_range']
    apply hlen ▸ hnd.length_le_of_subset
    intro w hw
    apply Decidable.byContradiction
    intro hq
    obtain ⟨n, x, ht⟩ := hws w hw
    exact unused (Nat.le_add_right _ 2) (hold w n _ x hq ht)
  · have hc : s.channels.get? (r.fresh + 1) = some (.ofBuffer room) := by
      rw [← Option.some.inj hm]
      exact installDrain_channel (r := r.addProbe.1) _ room hk
    apply start hc rfl
    intro ws _ hws
    refine Nat.le_of_eq (List.length_eq_zero_iff.mpr (List.eq_nil_iff_forall_not_mem.mpr fun w hw => ?_))
    obtain ⟨n, x, ht⟩ := hws w hw
    obtain ⟨x, ht⟩ := move_worker hn hm (by simp) ht
    exact unused (Nat.le_add_right _ 1) ht

end ScrapeRelay.Relay
