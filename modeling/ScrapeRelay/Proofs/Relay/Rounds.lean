import Mathlib.Data.List.Induction
import ScrapeRelay.Proofs.Relay.Dispatch
import ScrapeRelay.Proofs.Relay.Locks

/-!
The rounds of a discovery. Calls and its own loop make cycles for it at the same time, and other discoveries
bring targets to the same channels. What its cycles bring is one round after the other, in the order in which
they got the lock, and a round is one share of a batch for each reference to a channel.
-/

namespace ScrapeRelay.Relay

/-- What a discovery does: one of its cycles gets the lock, or brings a target into a channel. -/
inductive Mark where
  | began (task : Nat)
  | entered (task channel : Nat) (t : Target)
  deriving DecidableEq

def Mark.to? (c : Nat) : Mark → Option Target
  | .entered _ i x => if i = c then some x else none
  | .began _ => none

def Event.mark? (r : Relay) (n : Nat) : Event → Option Mark
  | .began i w => if i = n then some (.began w) else none
  | .entered c (some w) x => if (r.cycleOf w).any (·.1 == n) then some (.entered w c x) else none
  | _ => none

/-- What a later relay has in its journal that an earlier one has not, the earliest first. -/
def news (r s : Relay) : List Event := (s.journal.take (s.journal.length - r.journal.length)).reverse

def marks (r : Relay) (n : Nat) : List Move → List Mark
  | [] => []
  | m :: rest => ((r.move m).map fun s => (r.news s).filterMap (Event.mark? r n) ++ marks s n rest).getD []

def roundMarks (w : Nat) (bs : List (Nat × Target)) : List Mark := .began w :: bs.map fun b => .entered w b.1 b.2

def entriesOf (shares : List (Nat × List Target)) : List (Nat × Target) :=
  shares.flatMap fun q => q.2.map (q.1, ·)

/-- What one cycle got into the channels: for each reference that led to one, a share of its batch. -/
structure Round where
  task : Nat
  batch : List Target
  shares : List (Nat × List Target)

def Round.marks (ρ : Round) : List Mark := roundMarks ρ.task (entriesOf ρ.shares)

def Round.to (ρ : Round) (c : Nat) : List Target := (ρ.shares.filter (·.1 == c)).flatMap (·.2)

def Delivery.Outcome.share? (batch : List Target) (o : Delivery.Outcome) : Option (Nat × List Target) :=
  o.channel?.map (·, o.part batch)

def Errand.share? (batch : List Target) : Errand → Option (Nat × List Target)
  | .skipped _ => none
  | .made _ o _ => o.share? batch

def sharesOf (batch : List Target) (es : List Errand) : List (Nat × List Target) := es.filterMap (·.share? batch)

/-- In a run, a send of a cycle ended before the whole batch was in the channel: its time was up, or nobody took
from the channel any more. -/
def CutShort (r : Relay) (ms : List Move) (me n : Nat) (spec : Discovery.Spec) (batch : List Target)
    (q : Nat × List Target) : Prop :=
  ∃ k rest, DeliversTo r ms me n spec batch rest k (.late q.1 q.2) ∨
    DeliversTo r ms me n spec batch rest k (.closed q.1 q.2)

inductive Contributes (r : Relay) (ms : List Move) (me n : Nat) (sc : Scout) (s : Relay) :
    Cycle → List Target → List (Nat × List Target) → Prop
  | waiting {c : Cycle} (hc : c = .queued ∨ c = .scanning) : Contributes r ms me n sc s c [] []
  | choosing {batch : List Target} {es : List Errand} {rest : List Key} {tally : Tally}
      (hb : Scanned r ms me n sc.spec batch) (he : Errands r ms me n sc.spec batch sc.collectors es rest) :
      Contributes r ms me n sc s (.choosing batch rest tally) batch (sharesOf batch es)
  | looking {batch : List Target} {es : List Errand} {d : Delivery} {rest : List Key} {tally : Tally}
      (hb : Scanned r ms me n sc.spec batch)
      (he : Errands r ms me n sc.spec batch sc.collectors es (d.key :: rest))
      (hd : d.channel? = none) :
      Contributes r ms me n sc s (.delivering batch d rest tally) batch (sharesOf batch es)
  | sending {batch part : List Target} {es : List Errand} {d : Delivery} {rest : List Key}
      {tally : Tally} {i : Nat} (hb : Scanned r ms me n sc.spec batch)
      (he : Errands r ms me n sc.spec batch sc.collectors es (d.key :: rest))
      (hd : d.channel? = some i) (hp : part ++ s.inLine me i ++ d.rest = batch) :
      Contributes r ms me n sc s (.delivering batch d rest tally) batch (sharesOf batch es ++ [(i, part)])
  | measuring {batch : List Target} {es : List Errand} {k : Key} {rest : List Key} {tally : Tally}
      {o : Delivery.Outcome}
      (hb : Scanned r ms me n sc.spec batch) (he : Errands r ms me n sc.spec batch sc.collectors es (k :: rest))
      (ho : DeliversTo r ms me n sc.spec batch rest k o) :
      Contributes r ms me n sc s (.measuring batch k rest tally) batch
        (sharesOf batch es ++ (o.share? batch).toList)
  | reporting {batch : List Target} {es : List Errand} {found : Nat} {tally : Tally}
      (hb : Scanned r ms me n sc.spec batch) (he : Dispatched r ms me n sc batch es) :
      Contributes r ms me n sc s (.reporting found tally) batch (sharesOf batch es)

namespace Round

/-- A round of a run that is over, after so many earlier ones: it has one share for each errand of its cycle
that found a channel, which is the whole batch if it was not cut short. With the last turn of the cycle the lock
goes to the next task in line. -/
inductive Finished (r : Relay) (n : Nat) (ms : List Move) (earlier : List Round) : Round → Prop
  | mk {before mid after : List Move} {u v : Relay} {w : Nat} {sc : Scout} {status : Discovery.Status}
      {batch : List Target} {es : List Errand} {next? : Option Nat} (hms : ms = before ++ mid ++ after)
      (hu : r.replay before = some u) (hs : u.scouts.get? n = some sc) (h : Cycled u w n mid status v)
      (hb : Scanned u mid w n sc.spec batch) (he : Dispatched u mid w n sc batch es)
      (hq : ∀ q ∈ sharesOf batch es, q.2 = batch ∨ CutShort u mid w n sc.spec batch q)
      (hlog : r.marks n (before ++ mid) =
        (earlier ++ [Round.mk w batch (sharesOf batch es)]).flatMap Round.marks ++ next?.toList.map .began) :
      Finished r n ms earlier ⟨w, batch, sharesOf batch es⟩

def AllFinished (r : Relay) (n : Nat) (ms : List Move) (done : List Round) : Prop :=
  ∀ earlier ρ later, done = earlier ++ ρ :: later → ρ.Finished r n ms earlier

/-- A round of a run that is not over when the run is. Its last share may be growing still. -/
inductive Unfinished (r : Relay) (n : Nat) (ms : List Move) (t : Relay) : Round → Prop
  | mk {before mid : List Move} {u : Relay} {w : Nat} {sc : Scout} {c : Cycle} {batch : List Target}
      {shares : List (Nat × List Target)} (hms : ms = before ++ mid) (hu : r.replay before = some u)
      (hs : u.scouts.get? n = some sc) (h : Cycling u w n mid t c) (hc : Contributes u mid w n sc t c batch shares)
      (hq : ∀ q ∈ shares, q.2 = batch ∨ CutShort u mid w n sc.spec batch q ∨
        ∃ d rest tally, c = .delivering batch d rest tally ∧ d.channel? = some q.1 ∧
          q.2 ++ t.inLine w q.1 ++ d.rest = batch) : Unfinished r n ms t ⟨w, batch, shares⟩

end Round

variable {r s t u : Relay} {me n w i : Nat} {c c' : Cycle} {sc : Scout} {ms : List Move} {m : Move} {e : Event}
  {batch : List Target} {es : List Errand} {cs : List Nat} {bs : List (Nat × Target)} {spec : Discovery.Spec}
  {q : Nat × List Target} {x : Target}

/-! News -/

theorem news_eq {events : List Event} (hj : s.journal = events ++ r.journal) : r.news s = events.reverse := by
  simp [news, hj]

theorem told_news {α : Type} (hr : Reachable r) (hm : r.move m = some s) (f : Event → Option α) :
    s.told f = r.told f ++ (r.news s).filterMap f := by
  obtain ⟨events, hj⟩ := move_journal hr.numbered hm
  rw [told_append f hj, news_eq hj, List.filterMap_reverse]

theorem marks_concat (hs : r.replay ms = some s) (hm : s.move m = some t) (n : Nat) :
    r.marks n (ms ++ [m]) = r.marks n ms ++ (s.news t).filterMap (Event.mark? s n) := by
  induction ms generalizing r with
  | nil =>
    obtain rfl := Option.some.inj hs
    simp [marks, hm]
  | cons m' ms ih =>
    obtain ⟨u, hu, hs⟩ := Option.bind_eq_some_iff.mp hs
    simp only [List.cons_append, marks, hu, Option.map_some, Option.getD_some, ih hs, List.append_assoc]

theorem news_silent {α : Type} {f : Event → Option α} (hr : Reachable r) (hm : r.move m = some s)
    (h : s.told f = r.told f) (he : e ∈ r.news s) : f e = none := by
  obtain ⟨events, hj⟩ := move_journal hr.numbered hm
  rw [news_eq hj] at he
  exact told_silent hj h e (List.mem_reverse.mp he)

theorem news_entered (hr : Reachable r) (hm : r.move m = some s) (hb : s.brought w = r.brought w) :
    .entered i (some w) x ∉ r.news s := by
  intro he
  have hnone := news_silent hr hm hb he
  simp [Event.brought?] at hnone

theorem news_tells (hn : Numbered r) (hm : r.step me = some s) (he : e ∈ r.news s) :
    ∃ t, r.tasks.get? me = some t ∧ Tells r me t e := by
  obtain ⟨t, ht, events, hj, htells⟩ := step_tells hn hm
  rw [news_eq hj] at he
  exact ⟨t, ht, htells e (List.mem_reverse.mp he)⟩

theorem not_past_idle (h : c.isPast = false) : c.delivery? = none := by
  cases c <;> first | rfl | cases h

theorem idle_turn (hn : Numbered r) (hc : r.cycleOf me = some (n, c)) (hd : c.delivery? = none)
    (hm : r.step me = some s) (he : e ∈ r.news s) : ∀ i v x, e ≠ .entered i v x := by
  obtain ⟨a, ha, hac⟩ := Option.bind_eq_some_iff.mp hc
  obtain ⟨a', ha', htells⟩ := news_tells hn hm he
  obtain rfl := Option.some.inj (ha.symm.trans ha')
  rintro i v x rfl
  cases htells with
  | works => cases hac
  | delivers x hd' => cases (hd'.symm.trans (delivery?_cycle hac)).trans hd

theorem entered_holds (hr : Reachable r) (hm : r.move m = some s) (he : .entered i (some w) x ∈ r.news s)
    (hc : r.cycleOf w = some (n, c)) : (r.lock n).holder = some w := by
  cases hp : c.isPast with
  | true => exact (hr.guarded n).past w c hc hp
  | false =>
    -- a cycle that has no lock yet is on no errand and stands in no line, so no turn brings its targets
    by_cases hme : m = .turn w
    · subst hme
      exact absurd rfl (idle_turn hr.numbered hc (not_past_idle hp) hm he i (some w) x)
    · obtain ⟨a, ha, hac⟩ := Option.bind_eq_some_iff.mp hc
      obtain ⟨j, ts, had⟩ := move_admits hr.numbered hm hme
      have hclear := (hr.clear ha ((delivery?_cycle hac).trans (not_past_idle hp))).admits had
      exact absurd he (news_entered hr hm hclear.brought)

theorem mark?_eq (hr : Reachable r) (hm : r.move m = some s) (he : e ∈ r.news s) (n : Nat) :
    e.mark? r n = ((e.granted? n).map Mark.began).or
      ((r.lock n).holder.bind fun w => (e.brought? w).map fun b => .entered w b.1 b.2) := by
  have silent (hb : ∀ w, e.brought? w = none) :
      ((r.lock n).holder.bind fun w => (e.brought? w).map fun b => Mark.entered w b.1 b.2) = none := by
    simp [hb]
  cases e with
  | began i w =>
    rw [silent fun _ => rfl, Option.or_none, Event.mark?, Event.granted?]
    split <;> rfl
  | entered i v? x =>
    cases v? with
    | none => exact (silent fun w => by simp [Event.brought?]).symm
    | some v =>
      have hg : (Event.entered i (some v) x).granted? n = none := rfl
      rw [hg, Option.map_none, Option.none_or, Event.mark?]
      cases hv : (r.cycleOf v).any (·.1 == n) with
      | true =>
        obtain ⟨⟨j, c⟩, hc, hj⟩ := (Option.any_eq_true _ _).mp hv
        obtain rfl : j = n := by simpa using hj
        simp [entered_holds hr hm he hc, Event.brought?]
      | false =>
        cases hh : (r.lock n).holder with
        | none => rfl
        | some w =>
          obtain ⟨c, hc, -⟩ := (hr.guarded n).held w hh
          -- the target is another discovery's, so its task is not the holder
          have hw : v ≠ w := by
            rintro rfl
            simp [hc] at hv
          simp [Event.brought?, hw]
  | _ => exact (silent fun _ => rfl).symm

theorem news_marks (hr : Reachable r) (hm : r.move m = some s) (hg : s.granted n = r.granted n) :
    (r.news s).filterMap (Event.mark? r n) =
      (r.lock n).holder.elim [] fun w => ((r.news s).filterMap (Event.brought? w)).map
        fun b => .entered w b.1 b.2 := by
  have hmarks : (r.news s).filterMap (Event.mark? r n) = (r.news s).filterMap fun e =>
      (r.lock n).holder.bind fun w => (e.brought? w).map fun b => Mark.entered w b.1 b.2 := by
    refine List.filterMap_congr fun e he => ?_
    rw [mark?_eq hr hm he n, news_silent hr hm hg he, Option.map_none, Option.none_or]
  rw [hmarks]
  cases (r.lock n).holder with
  | none => simp
  | some w => simp [List.map_filterMap]

theorem news_begins (hr : Reachable r) (hm : r.move m = some s) {ws : List Nat}
    (hb : ∀ w, (r.lock n).holder = some w → s.brought w = r.brought w) (hg : s.granted n = r.granted n ++ ws) :
    (r.news s).filterMap (Event.mark? r n) = ws.map .began := by
  have hws : (r.news s).filterMap (Event.granted? n) = ws :=
    List.append_cancel_left ((told_news hr hm (Event.granted? n)).symm.trans hg)
  rw [← hws, List.map_filterMap]
  refine List.filterMap_congr fun e he => ?_
  rw [mark?_eq hr hm he n]
  cases hh : (r.lock n).holder with
  | none => simp
  | some w => simp [news_silent hr hm (hb w hh) he]

/-! Shares -/

theorem brings_share (o : Delivery.Outcome) (batch : List Target) :
    o.brings batch = entriesOf (o.share? batch).toList := by
  cases o <;> simp [Delivery.Outcome.brings, Delivery.Outcome.share?, Delivery.Outcome.channel?, entriesOf]

theorem entriesOf_append (qs qs' : List (Nat × List Target)) :
    entriesOf (qs ++ qs') = entriesOf qs ++ entriesOf qs' :=
  List.flatMap_append

theorem entriesOf_singleton (i : Nat) (part : List Target) : entriesOf [(i, part)] = part.map (i, ·) :=
  List.flatMap_singleton ..

theorem entriesOf_shares (batch : List Target) (es : List Errand) :
    entriesOf (sharesOf batch es) = es.flatMap (·.brings batch) := by
  induction es with
  | nil => rfl
  | cons e es ih =>
    have he : sharesOf batch (e :: es) = (e.share? batch).toList ++ sharesOf batch es := by
      cases h : e.share? batch <;> simp [sharesOf, h]
    rw [he, entriesOf_append, ih, List.flatMap_cons]
    cases e with
    | skipped k => rfl
    | made k o depth =>
      congr 1
      exact (brings_share o batch).symm

theorem Round.to_marks (ρ : Round) (c : Nat) : ρ.marks.filterMap (Mark.to? c) = ρ.to c := by
  rw [Round.marks, roundMarks, Round.to, entriesOf]
  simp only [List.filterMap_cons, Mark.to?, List.map_flatMap, List.filterMap_flatMap, List.map_map,
    List.filterMap_map]
  induction ρ.shares with
  | nil => rfl
  | cons q qs ih =>
    rw [List.flatMap_cons, ih, List.filter_cons]
    by_cases hq : q.1 = c <;> simp [hq, Function.comp_def, Mark.to?]

theorem DeliversTo.share {k : Key} {rest : List Key} {o : Delivery.Outcome}
    (h : DeliversTo r ms me n spec batch rest k o) (hq : q ∈ o.share? batch) :
    q.2 = batch ∨ CutShort r ms me n spec batch q := by
  cases o with
  | unknown => cases hq
  | whole =>
    cases hq
    exact .inl rfl
  | late =>
    cases hq
    exact .inr ⟨k, rest, .inl h⟩
  | closed =>
    cases hq
    exact .inr ⟨k, rest, .inr h⟩

theorem Errands.share {collectors rest : List Key} (h : Errands r ms me n spec batch collectors es rest)
    (hq : q ∈ sharesOf batch es) : q.2 = batch ∨ CutShort r ms me n spec batch q := by
  obtain ⟨e, he, hq⟩ := List.mem_filterMap.mp hq
  obtain ⟨later, hd⟩ := h.done he
  cases hd with
  | skipped => cases hq
  | made ho => exact ho.share hq

theorem Dispatched.share (h : Dispatched r ms me n sc batch es) (hq : q ∈ sharesOf batch es) :
    q.2 = batch ∨ CutShort r ms me n sc.spec batch q := by
  unfold Dispatched at h
  split at h
  · exact h.share hq
  · subst h
    cases hq

theorem DeliversTo.isPrefix {k : Key} {rest : List Key} {o : Delivery.Outcome}
    (h : DeliversTo r ms me n spec batch rest k o) : o.part batch <+: batch := by
  obtain ⟨-, -, w, -, -, d, -, result, -, -, -, -, -, -, -, -, ho⟩ := h
  exact ho.isPrefix

theorem CutShort.isPrefix (h : CutShort r ms me n spec batch q) : q.2 <+: batch := by
  rcases h with ⟨k, rest, h | h⟩ <;> exact h.isPrefix

theorem Clear.new {before : List (Nat × Target)} (h : Clear s me (before ++ bs)) {bs' : List (Nat × Target)}
    (hb : s.brought me = before ++ bs') : bs = bs' :=
  List.append_cancel_left (h.brought.symm.trans hb)

theorem Underway.contributes (h : Underway r ms me n sc s c es cs) (ha : c ≠ .asking)
    (hb : s.brought me = r.brought me ++ bs) :
    ∃ batch shares, Contributes r ms me n sc s c batch shares ∧ entriesOf shares = bs := by
  have nothing (h : Clear s me (r.brought me)) : entriesOf [] = bs := by
    have hnil : bs = [] := by simpa [hb] using h.brought
    rw [hnil]
    rfl
  cases h with
  | asking => exact absurd rfl ha
  | queued h => exact ⟨[], [], .waiting (.inl rfl), nothing h⟩
  | scanning h => exact ⟨[], [], .waiting (.inr rfl), nothing h⟩
  | @choosing batch es rest hc hbatch he h =>
    exact ⟨batch, _, .choosing hbatch he, (entriesOf_shares batch es).trans (h.new hb)⟩
  | @delivering batch es rest d hd h =>
    cases h with
    | unaddressed h =>
      exact ⟨batch, _, .looking hd.scanned hd.errands rfl, (entriesOf_shares batch es).trans (h.new hb)⟩
    | @pushing k limit i sent rest' hsent h =>
      have hp : sent ++ s.inLine me i ++ rest' = batch := by rw [h.line, List.append_nil, hsent]
      refine ⟨batch, _, .sending hd.scanned hd.errands rfl hp, ?_⟩
      rw [List.append_assoc] at h
      rw [entriesOf_append, entriesOf_shares, entriesOf_singleton]
      exact h.new hb
    | @stuck k limit i sent rest' hsent h =>
      obtain ⟨part, hbrought, hpart⟩ := h.part
      refine ⟨batch, _, .sending hd.scanned hd.errands rfl (by rw [hpart, hsent]), ?_⟩
      rw [List.append_assoc] at hbrought
      rw [entriesOf_append, entriesOf_shares, entriesOf_singleton]
      exact List.append_cancel_left (hbrought.symm.trans hb)
  | @measuring batch es k rest o hc hbatch he ho h =>
    refine ⟨batch, _, .measuring hbatch he ho, ?_⟩
    rw [entriesOf_append, entriesOf_shares, ← brings_share]
    rw [List.append_assoc] at h
    exact h.new hb
  | @reporting batch es hbatch he h =>
    exact ⟨batch, _, .reporting hbatch he, (entriesOf_shares batch es).trans (h.new hb)⟩

theorem Contributes.share {shares : List (Nat × List Target)} (h : Contributes r ms me n sc s c batch shares)
    (hq : q ∈ shares) : q.2 = batch ∨ CutShort r ms me n sc.spec batch q ∨
      ∃ d rest tally, c = .delivering batch d rest tally ∧ d.channel? = some q.1 ∧
        q.2 ++ s.inLine me q.1 ++ d.rest = batch := by
  cases h with
  | waiting => cases hq
  | choosing _ he => exact (he.share hq).imp_right .inl
  | looking _ he => exact (he.share hq).imp_right .inl
  | sending _ he hd hp =>
    rcases List.mem_append.mp hq with hq | hq
    · exact (he.share hq).imp_right .inl
    · obtain rfl := List.mem_singleton.mp hq
      exact .inr (.inr ⟨_, _, _, rfl, hd, hp⟩)
  | measuring _ he ho =>
    rcases List.mem_append.mp hq with hq | hq
    · exact (he.share hq).imp_right .inl
    · exact (ho.share (Option.mem_toList.mp hq)).imp_right .inl
  | reporting _ he => exact (he.share hq).imp_right .inl

namespace Round

variable {done earlier : List Round} {ρ : Round}

theorem Finished.later (h : ρ.Finished r n ms earlier) (m : Move) : ρ.Finished r n (ms ++ [m]) earlier := by
  obtain ⟨rfl, hu, hs, h, hb, he, hq, hlog⟩ := h
  exact .mk (List.append_assoc ..) hu hs h hb he hq hlog

theorem Finished.prefixes (h : ρ.Finished r n ms earlier) : ∀ q ∈ ρ.shares, q.2 <+: ρ.batch := by
  obtain ⟨-, -, -, -, -, -, hq, -⟩ := h
  intro q hmem
  rcases hq q hmem with h | h
  · exact h ▸ List.prefix_refl _
  · exact h.isPrefix

theorem AllFinished.later (h : AllFinished r n ms done) (m : Move) : AllFinished r n (ms ++ [m]) done :=
  fun earlier ρ later he => (h earlier ρ later he).later m

theorem AllFinished.concat (h : AllFinished r n ms done) (hρ : ρ.Finished r n ms done) :
    AllFinished r n ms (done ++ [ρ]) := by
  intro earlier ρ' later he
  rcases List.eq_nil_or_concat later with rfl | ⟨later', ρ'', rfl⟩
  · obtain ⟨rfl, hl⟩ := List.append_inj' he rfl
    exact List.singleton_inj.mp hl ▸ hρ
  · rw [List.concat_eq_append, ← List.cons_append, ← List.append_assoc] at he
    exact h earlier ρ' later' (List.append_inj' he rfl).1

theorem AllFinished.prefixes (h : AllFinished r n ms done) (hρ : ρ ∈ done) :
    ∀ q ∈ ρ.shares, q.2 <+: ρ.batch := by
  obtain ⟨earlier, later, he⟩ := List.append_of_mem hρ
  exact (h earlier ρ later he).prefixes

theorem Unfinished.prefixes (h : ρ.Unfinished r n ms t) : ∀ q ∈ ρ.shares, q.2 <+: ρ.batch := by
  obtain ⟨-, -, -, -, -, hq⟩ := h
  intro q hmem
  rcases hq q hmem with h | h | ⟨d, rest, tally, -, -, h⟩
  · exact h ▸ List.prefix_refl _
  · exact h.isPrefix
  · exact ⟨_, (List.append_assoc _ _ _).symm.trans h⟩

end Round

/-! Runs -/

inductive Traced (r : Relay) (n w : Nat) (ms : List Move) (s : Relay) (c : Cycle) :
    Relay → List Move → Scout → Prop
  | mk {before mid : List Move} {u : Relay} {sc : Scout} (hms : ms = before ++ mid) (hu : r.replay before = some u)
      (hs : u.scouts.get? n = some sc) (h : Cycling u w n mid s c) : Traced r n w ms s c u mid sc

theorem Traced.concat {mid : List Move} (h : Traced r n w ms s c u mid sc) (hm : s.move m = some t)
    (hc : t.cycleOf w = some (n, c')) : Traced r n w (ms ++ [m]) t c' u (mid ++ [m]) sc := by
  obtain ⟨rfl, hu, hs, h⟩ := h
  exact .mk (List.append_assoc ..) hu hs (h.goesOn hm hc)

theorem Traced.first (hs : r.replay ms = some s) (hsc : s.scouts.get? n = some sc)
    (ha : s.cycleOf w = some (n, .asking)) (hm : s.move m = some t) (hc : t.cycleOf w = some (n, c)) :
    Traced r n w (ms ++ [m]) t c s [m] sc :=
  .mk rfl hs hsc (.goesOn (.begins ha) hm hc)

theorem replay_traced (hr : Reachable r) (hidle : ∀ w c, r.cycleOf w ≠ some (n, c)) (hs : r.replay ms = some s)
    (hc : s.cycleOf w = some (n, c)) (ha : c ≠ .asking) : ∃ u mid sc, Traced r n w ms s c u mid sc := by
  induction ms using List.reverseRecOn generalizing s c with
  | nil =>
    obtain rfl := Option.some.inj hs
    exact absurd hc (hidle w c)
  | append_singleton ms m ih =>
    rw [replay_concat] at hs
    obtain ⟨v, hv, hm⟩ := Option.bind_eq_some_iff.mp hs
    have hrv := hr.later (replay_later hv)
    by_cases hme : m = .turn w
    · subst hme
      rcases step_cycleOf hrv hm hc with rfl | ⟨c₀, sc, s', hc₀, hsc, -⟩
      · exact absurd rfl ha
      · -- a cycle counts from the turn in which it asks for the lock
        by_cases ha₀ : c₀ = .asking
        · subst ha₀
          exact ⟨_, _, _, .first hv hsc hc₀ hm hc⟩
        · obtain ⟨u, mid, sc, h⟩ := ih hv hc₀ ha₀
          exact ⟨_, _, _, h.concat hm hc⟩
    · rcases cycle_before hrv hm hme hc with hc' | rfl
      · obtain ⟨u, mid, sc, h⟩ := ih hv hc' ha
        exact ⟨_, _, _, h.concat hm hc⟩
      · exact absurd rfl ha

theorem Traced.underway {mid : List Move} (h : Traced r n w ms s c u mid sc) (hr : Reachable r) :
    ∃ es cs, Underway u mid w n sc s c es cs := by
  obtain ⟨-, hu, hs, h⟩ := h
  obtain ⟨-, es, cs, hund, -⟩ := h.underway (hr.later (replay_later hu)) hs
  exact ⟨es, cs, hund⟩

theorem Traced.waiting {mid : List Move} (h : Traced r n w ms s .queued u mid sc) (hr : Reachable r) :
    s.brought w = u.brought w := by
  obtain ⟨es, cs, hund⟩ := h.underway hr
  cases hund with
  | queued h => exact h.brought

theorem brought_news (hr : Reachable r) (hm : r.move m = some s) (w : Nat) :
    s.brought w = r.brought w ++ (r.news s).filterMap (Event.brought? w) := told_news hr hm _

theorem idle_brought (hr : Reachable r) (hc : r.cycleOf me = some (n, c)) (hd : c.delivery? = none)
    (hm : r.move (.turn me) = some s) (w : Nat) : s.brought w = r.brought w := by
  have hnone : (r.news s).filterMap (Event.brought? w) = [] := by
    refine List.filterMap_eq_nil_iff.mpr fun e he => ?_
    cases e with
    | entered i v x => exact absurd rfl (idle_turn hr.numbered hc hd hm he i v x)
    | _ => rfl
  rw [brought_news hr hm, hnone, List.append_nil]

/-- What a discovery did in a run, round by round. The last round is the one of the task that holds the lock. -/
inductive Logged (r : Relay) (n : Nat) (ms : List Move) (s : Relay) : Prop
  | free {done : List Round} (hh : (s.lock n).holder = none) (hd : Round.AllFinished r n ms done)
      (hlog : r.marks n ms = done.flatMap Round.marks) : Logged r n ms s
  | held {done : List Round} {w : Nat} {c : Cycle} {u : Relay} {mid : List Move} {sc : Scout}
      {bs : List (Nat × Target)}
      (hh : (s.lock n).holder = some w) (hd : Round.AllFinished r n ms done) (h : Traced r n w ms s c u mid sc)
      (hb : s.brought w = u.brought w ++ bs) (hlog : r.marks n ms = done.flatMap Round.marks ++ roundMarks w bs) :
      Logged r n ms s

theorem Logged.goesOn (h : Logged r n ms s) (hr : Reachable s) (hs : r.replay ms = some s) (hm : s.move m = some t)
    (hh : (t.lock n).holder = (s.lock n).holder) (hg : t.granted n = s.granted n) : Logged r n (ms ++ [m]) t := by
  cases h with
  | free hfree hd hlog =>
    refine .free (hh.trans hfree) (hd.later m) ?_
    rw [marks_concat hs hm, hlog, news_marks hr hm hg, hfree, Option.elim_none, List.append_nil]
  | @held done w c u mid sc bs hw hd htr hb hlog =>
    obtain ⟨c', hc', -⟩ := ((hr.later (.after m .same hm)).guarded n).held w (hh.trans hw)
    have hb' : t.brought w = u.brought w ++ (bs ++ (s.news t).filterMap (Event.brought? w)) := by
      rw [brought_news hr hm, hb, List.append_assoc]
    refine .held (hh.trans hw) (hd.later m) (htr.concat hm hc') hb' ?_
    rw [marks_concat hs hm, hlog, news_marks hr hm hg, hw, Option.elim_some, List.append_assoc,
      roundMarks, roundMarks, List.map_append, List.cons_append]

theorem Logged.acquires (h : Logged r n ms s) (hr : Reachable s) (hs : r.replay ms = some s)
    (hm : s.move (.turn me) = some t) (hsc : s.scouts.get? n = some sc) (hc : s.cycleOf me = some (n, .asking))
    (hc' : t.cycleOf me = some (n, .scanning)) (hh : (s.lock n).holder = none) (hl : (t.lock n).holder = some me)
    (hg : t.granted n = s.granted n ++ [me]) : Logged r n (ms ++ [.turn me]) t := by
  cases h with
  | held hw => cases hh.symm.trans hw
  | free _ hd hlog =>
    have hb : t.brought me = s.brought me ++ [] := by rw [idle_brought hr hc rfl hm, List.append_nil]
    refine .held hl (hd.later _) (.first hs hsc hc hm hc') hb ?_
    rw [marks_concat hs hm, hlog, news_begins hr hm (fun w hw => by cases hh.symm.trans hw) hg]
    rfl

theorem Traced.finishes {mid : List Move} {found : Nat} {tally : Tally} {done : List Round} {next? : Option Nat}
    (h : Traced r n me ms s (.reporting found tally) u mid sc) (hr : Reachable r) (hrs : Reachable s)
    (hm : s.move (.turn me) = some t) {sc' : Scout} (hsc : s.scouts.get? n = some sc')
    (hc : s.cycleOf me = some (n, .reporting found tally)) (hb : s.brought me = u.brought me ++ bs)
    (hlog : r.marks n (ms ++ [.turn me]) = done.flatMap Round.marks ++ roundMarks me bs ++
      next?.toList.map .began) :
    ∃ ρ : Round, ρ.Finished r n (ms ++ [.turn me]) done ∧ ρ.marks = roundMarks me bs := by
  obtain ⟨rfl, hu, hs, h⟩ := h
  have hcycled : Cycled u me n (mid ++ [.turn me]) _ t := .mk h hsc rfl hm
  obtain ⟨batch, es, hbatch, he, hcl, -, -⟩ := hcycled.accounts (hr.later (replay_later hu)) hs
  have hbs : es.flatMap (·.brings batch) = bs := hcl.new ((idle_brought hrs hc rfl hm me).trans hb)
  have hmarks : Round.marks ⟨me, batch, sharesOf batch es⟩ = roundMarks me bs := by
    rw [Round.marks, entriesOf_shares, hbs]
  refine ⟨⟨me, batch, sharesOf batch es⟩, ?_, hmarks⟩
  rw [List.append_assoc] at hlog ⊢
  rw [← hmarks, ← List.flatMap_singleton Round.marks, ← List.flatMap_append] at hlog
  exact .mk (List.append_nil _).symm hu hs hcycled hbatch he (fun q hq => he.share hq) hlog

theorem Logged.passes (h : Logged r n ms s) (hr : Reachable r) (hidle : ∀ w c, r.cycleOf w ≠ some (n, c))
    (hs : r.replay ms = some s) (hm : s.move (.turn me) = some t) {found : Nat} {tally : Tally}
    (hsc : s.scouts.get? n = some sc) (hc : s.cycleOf me = some (n, .reporting found tally))
    (hl : t.lock n = (s.lock n).pass) (hg : t.granted n = s.granted n ++ (s.lock n).line.head?.toList) :
    Logged r n (ms ++ [.turn me]) t := by
  have hrs := hr.later (replay_later hs)
  have hgs := hrs.guarded n
  have hme := hgs.past me _ hc rfl
  cases h with
  | free hh => cases hh.symm.trans hme
  | @held done w c u mid sc' bs hw hd htr hb hlog =>
    obtain rfl := Option.some.inj (hw.symm.trans hme)
    obtain rfl : c = .reporting found tally := by
      obtain ⟨-, -, -, h⟩ := htr
      exact (Prod.mk.inj (Option.some.inj (h.replays.2.symm.trans hc))).2
    have hnews : r.marks n (ms ++ [.turn w]) =
        done.flatMap Round.marks ++ roundMarks w bs ++ (s.lock n).line.head?.toList.map .began := by
      rw [marks_concat hs hm, hlog, news_begins hrs hm (fun w _ => idle_brought hrs hc rfl hm w) hg]
    obtain ⟨ρ, hρ, hmarks⟩ := htr.finishes hr hrs hm hsc hc hb hnews
    have hdone := (hd.later (.turn w)).concat hρ
    rw [← hmarks, ← List.flatMap_singleton Round.marks ρ, ← List.flatMap_append] at hnews
    have hholder : (t.lock n).holder = (s.lock n).line.head? := by rw [hl, Lock.pass]
    cases hline : (s.lock n).line.head? with
    | none =>
      rw [hline] at hholder hnews
      exact .free hholder hdone (hnews.trans (List.append_nil _))
    | some next =>
      rw [hline] at hholder hnews
      have hin : next ∈ (s.lock n).line := List.mem_of_mem_head? hline
      have hne : next ≠ w := ne_of_mem_of_not_mem hin (hgs.holder_not_lined hme)
      -- the next task began its cycle earlier in the run, and has brought nothing since
      have hq := hgs.lined_kept hrs hm hin (turn_ne hne)
      have ht : r.replay (ms ++ [.turn w]) = some t := by rw [replay_concat, hs, Option.bind_some, hm]
      obtain ⟨v, mid', sc', htr'⟩ := replay_traced hr hidle ht hq (by simp)
      exact .held hholder hdone htr' ((htr'.waiting hr).trans (List.append_nil _).symm) hnews

theorem Logged.move (h : Logged r n ms s) (hr : Reachable r) (hidle : ∀ w c, r.cycleOf w ≠ some (n, c))
    (hs : r.replay ms = some s) (hm : s.move m = some t) : Logged r n (ms ++ [m]) t := by
  have hrs := hr.later (replay_later hs)
  cases move_shift hrs hm n with
  | elsewhere hl hg => exact h.goesOn hrs hs hm (congrArg Lock.holder hl) hg
  | queues _ _ hh hl hg => exact h.goesOn hrs hs hm ((congrArg Lock.holder hl).trans hh.symm) hg
  | goesOn _ _ _ _ _ hl hg => exact h.goesOn hrs hs hm (congrArg Lock.holder hl) hg
  | acquires hsc hc hc' hh hl hg => exact h.acquires hrs hs hm hsc hc hc' hh (congrArg Lock.holder hl) hg
  | passes hsc hc hc' hl hg => exact h.passes hr hidle hs hm hsc hc hl hg

theorem replay_logged (hr : Reachable r) (hidle : ∀ w c, r.cycleOf w ≠ some (n, c))
    (hs : r.replay ms = some s) : Logged r n ms s := by
  induction ms using List.reverseRecOn generalizing s with
  | nil =>
    obtain rfl := Option.some.inj hs
    have hfree : (r.lock n).holder = none := by
      cases hh : (r.lock n).holder with
      | none => rfl
      | some w =>
        obtain ⟨c, hc, -⟩ := (hr.guarded n).held w hh
        exact absurd hc (hidle w c)
    have hnone : Round.AllFinished r n [] [] := fun earlier ρ later he => by simp at he
    exact .free hfree hnone rfl
  | append_singleton ms m ih =>
    have hs' := hs
    rw [replay_concat] at hs'
    obtain ⟨u, hu, hm⟩ := Option.bind_eq_some_iff.mp hs'
    exact (ih hu).move hr hidle hu hm

/-! What the log tells -/

def Mark.began? : Mark → Option Nat
  | .began w => some w
  | .entered .. => none

theorem Round.began_marks (ρ : Round) : ρ.marks.filterMap Mark.began? = [ρ.task] := by
  have hnone : ((entriesOf ρ.shares).map fun b => Mark.entered ρ.task b.1 b.2).filterMap Mark.began? = [] := by
    rw [List.filterMap_map]
    exact List.filterMap_eq_nil_iff.mpr fun _ _ => rfl
  exact congrArg (ρ.task :: ·) hnone

theorem marks_granted (hr : Reachable r) (hs : r.replay ms = some s) (n : Nat) :
    s.granted n = r.granted n ++ (r.marks n ms).filterMap Mark.began? := by
  induction ms using List.reverseRecOn generalizing s with
  | nil =>
    obtain rfl := Option.some.inj hs
    exact (List.append_nil _).symm
  | append_singleton ms m ih =>
    rw [replay_concat] at hs
    obtain ⟨u, hu, hm⟩ := Option.bind_eq_some_iff.mp hs
    have htold : s.granted n = u.granted n ++ (u.news s).filterMap (Event.granted? n) :=
      told_news (hr.later (replay_later hu)) hm _
    rw [htold, ih hu, marks_concat hu hm, List.filterMap_append, List.append_assoc, List.filterMap_filterMap]
    congr 2
    refine List.filterMap_congr fun e _ => ?_
    cases e with
    | began i w =>
      rw [Event.granted?, Event.mark?]
      split <;> rfl
    | entered i v? x =>
      cases v? with
      | none => rfl
      | some v =>
        rw [Event.mark?]
        split <;> rfl
    | _ => rfl

theorem marks_pushed (hr : Reachable r) (hs : r.replay ms = some s) (n c : Nat) :
    ((r.marks n ms).filterMap (Mark.to? c)).Sublist (s.pushed c) := by
  induction ms using List.reverseRecOn generalizing s with
  | nil => exact List.nil_sublist _
  | append_singleton ms m ih =>
    rw [replay_concat] at hs
    obtain ⟨u, hu, hm⟩ := Option.bind_eq_some_iff.mp hs
    have htold : s.pushed c = u.pushed c ++ (u.news s).filterMap (Event.pushed? c) :=
      told_news (hr.later (replay_later hu)) hm _
    rw [htold, marks_concat hu hm, List.filterMap_append, List.filterMap_filterMap]
    refine (ih hu).append (filterMap_sublist (fun e x he => ?_) _)
    cases e with
    | began i w =>
      rw [Event.mark?] at he
      split at he <;> cases he
    | entered i v? x =>
      cases v? with
      | none => cases he
      | some v =>
        rw [Event.mark?] at he
        split at he
        · exact he
        · cases he
    | _ => cases he

theorem Logged.rounds (h : Logged r n ms s) (hr : Reachable r) (hrs : Reachable s) :
    ∃ (done : List Round) (last? : Option Round), r.marks n ms = (done ++ last?.toList).flatMap Round.marks ∧
      Round.AllFinished r n ms done ∧ (∀ ρ ∈ last?, ρ.Unfinished r n ms s) ∧
      last?.map (·.task) = (s.lock n).holder := by
  cases h with
  | @free done hh hd hlog => exact ⟨done, none, by simpa using hlog, hd, by simp, hh.symm⟩
  | @held done w c u mid sc bs hh hd htr hb hlog =>
    obtain ⟨es, cs, hund⟩ := htr.underway hr
    obtain ⟨hms, hu, hsc, hcy⟩ := htr
    have ha : c ≠ .asking := by
      obtain ⟨c', hc', ha⟩ := (hrs.guarded n).held w hh
      obtain ⟨-, rfl⟩ := Prod.mk.inj (Option.some.inj (hcy.replays.2.symm.trans hc'))
      exact ha
    obtain ⟨batch, shares, hc, rfl⟩ := hund.contributes ha hb
    refine ⟨done, some ⟨w, batch, shares⟩, ?_, hd, ?_, hh.symm⟩
    · rw [hlog, Option.toList_some, List.flatMap_append, List.flatMap_singleton]
      rfl
    · rintro ρ ⟨⟩
      exact .mk hms hu hsc hcy hc fun q hq => hc.share hq

/-- The cycles of a discovery bring their batches one after the other, however many calls make cycles at the
same time as its own loop, and whoever else sends to the same channels and takes from them. What it does in a
run is one round after the other, in the order in which the cycles got the lock; all rounds are over but the one
whose task holds the lock at the end. So in each channel the targets of the discovery are the shares of the
first round to it, then those of the second one, and so on. A round has one share for each reference that led to
a channel: a first part of the batch of its own scan, in order, and all of it unless the send was cut short or
is under way. -/
theorem rounds_in_order {inventory : Cluster.Inventory} {network : Network} {every : Option Nat} {ms : List Move}
    {t : Relay} (ht : (start inventory network every).replay ms = some t) (n : Nat) :
    ∃ (done : List Round) (last? : Option Round),
      (start inventory network every).marks n ms = (done ++ last?.toList).flatMap Round.marks ∧
      Round.AllFinished (start inventory network every) n ms done ∧
      (∀ ρ ∈ last?, ρ.Unfinished (start inventory network every) n ms t) ∧
      last?.map (·.task) = (t.lock n).holder ∧ (done ++ last?.toList).map (·.task) = t.granted n ∧
      (∀ ρ ∈ done ++ last?.toList, ∀ q ∈ ρ.shares, q.2 <+: ρ.batch) ∧
      ∀ c, ((start inventory network every).marks n ms).filterMap (Mark.to? c) =
          (done ++ last?.toList).flatMap (·.to c) ∧
        ((done ++ last?.toList).flatMap (·.to c)).Sublist (t.pushed c) ∧
        t.received c ++ (t.channel c).queue = t.pushed c := by
  have hr : Reachable (start inventory network every) := ⟨inventory, network, every, .same⟩
  have hrt := hr.later (replay_later ht)
  obtain ⟨done, last?, hlog, hd, hl, hholder⟩ := (replay_logged hr (fun w c h => by cases h) ht).rounds hr hrt
  have hto (c : Nat) : ((start inventory network every).marks n ms).filterMap (Mark.to? c) =
      (done ++ last?.toList).flatMap (·.to c) := by
    rw [hlog, List.filterMap_flatMap]
    exact List.flatMap_congr fun ρ _ => ρ.to_marks c
  refine ⟨done, last?, hlog, hd, hl, hholder, ?_, ?_, fun c => ⟨hto c, ?_, hrt.handedOff.conserved c⟩⟩
  · have hg := marks_granted hr ht n
    rw [hlog, List.filterMap_flatMap, List.flatMap_congr fun ρ _ => ρ.began_marks, ← List.map_eq_flatMap] at hg
    exact hg.symm
  · refine List.forall_mem_append.mpr ⟨fun ρ hρ => hd.prefixes hρ, fun ρ hρ => ?_⟩
    exact (hl ρ (Option.mem_toList.mp hρ)).prefixes
  · rw [← hto c]
    exact marks_pushed hr ht n c

/-- A discovery that runs by itself and is called twice, and another one that sends to the same pool. -/
def contending : List Move :=
  [.addPool (market "pool") .standard 1 (fun _ => true) none,
    .addDiscovery (market "scan")
      { asking [⟨"", "pool"⟩] with
        enabled := true
        sendTimeoutSeconds := some 1 } true false,
    .addDiscovery (market "other") (asking [⟨"", "pool"⟩]) true false,
    .call (.runOnce 4), .call (.runOnce 4), .call (.runOnce 6)]

/-- The loop takes too long with its second target, the first call brings both of its own, the second call is still
at it; the other discovery gets its targets in between. -/
def contended : List Move :=
  contending ++ [.turn 5, .turn 5, .turn 8, .turn 10, .turn 9] ++ alone 5 5 ++ alone 10 4 ++ [.elapse 1000] ++
    alone 5 4 ++ alone 3 3 ++ alone 8 6 ++ alone 10 2 ++ alone 3 4 ++ alone 8 5 ++ alone 3 2 ++ alone 9 5

theorem rounds_in_order_contended :
    ∃ (t : Relay) (done : List Round) (last? : Option Round),
    (start fair .silent none).replay contended = some t ∧
      Round.AllFinished (start fair .silent none) 4 contended done ∧
      (∀ ρ ∈ last?, ρ.Unfinished (start fair .silent none) 4 contended t) ∧
      (done ++ last?.toList).map Round.task = [5, 8, 9] ∧ last?.map Round.task = some 9 ∧
      ((done ++ last?.toList).flatMap (·.to 2)).map (·.ip) = ["10.0.0.1", "10.0.0.1", "10.0.0.2", "10.0.0.1"] ∧
      (t.pushed 2).map (·.ip) = ["10.0.0.1", "10.0.0.1", "10.0.0.1", "10.0.0.2", "10.0.0.2", "10.0.0.1"] := by
  have facts : ((start fair .silent none).replay contended).map (fun t =>
      decide (t.granted 4 = [5, 8, 9] ∧ (t.lock 4).holder = some 9 ∧
        (((start fair .silent none).marks 4 contended).filterMap (Mark.to? 2)).map (·.ip) =
          ["10.0.0.1", "10.0.0.1", "10.0.0.2", "10.0.0.1"] ∧
        (t.pushed 2).map (·.ip) = ["10.0.0.1", "10.0.0.1", "10.0.0.1", "10.0.0.2", "10.0.0.2", "10.0.0.1"])) =
      some true := by decide +kernel
  obtain ⟨t, ht, facts⟩ := Option.map_eq_some_iff.mp facts
  obtain ⟨hgranted, hholder, hto, hpushed⟩ := of_decide_eq_true facts
  obtain ⟨done, last?, -, hd, hl, hlast, htasks, -, hc⟩ := rounds_in_order ht 4
  exact ⟨t, done, last?, ht, hd, hl, htasks.trans hgranted, hlast.trans hholder, (hc 2).1 ▸ hto, hpushed⟩

end ScrapeRelay.Relay
