import Mathlib.Data.List.Induction
import ScrapeRelay.Proofs.Status.Forgetting

/-!
The two views of a board, as they follow from all that the board was told. What a view shows for a key is the
last that was said about that key: the snapshot shows the status, and a family of gauges one number of it.
Series are kept under the text of their labels, so the gauges tell two keys apart only where those texts differ.
-/

namespace ScrapeRelay.Status

open Std

inductive Notice where
  | discovery (k : Key) (s : Discovery.Status)
  | collector (k : Key) (s : Collector.Status)
  | discoveryGone (k : Key)
  | collectorGone (k : Key)
  deriving DecidableEq

def Board.hear (b : Board) : Notice → Board
  | .discovery k s => b.updateDiscovery k s
  | .collector k s => b.updateCollector k s
  | .discoveryGone k => b.forgetDiscovery k
  | .collectorGone k => b.forgetCollector k

def heard (up : Float) (notices : List Notice) : Board := notices.foldl Board.hear { Board.empty with up }

/-- The last that was said about something, where a notice says nothing about it, that it is gone, or what it
is. -/
def lastSaid {α : Type} (said : Notice → Option (Option α)) (notices : List Notice) : Option α :=
  (notices.filterMap said).getLast?.getD none

section LastSaid

variable {α β : Type} {notices : List Notice} {n : Notice}

theorem lastSaid_concat (said : Notice → Option (Option α)) (notices : List Notice) (n : Notice) :
    lastSaid said (notices ++ [n]) = (said n).getD (lastSaid said notices) := by
  rw [lastSaid, List.filterMap_append, List.getLast?_append]
  cases h : said n with
  | none => simp [lastSaid, h]
  | some x => simp [h]

theorem lastSaid_bind {said : Notice → Option (Option α)} {said' : Notice → Option (Option β)}
    {g : α → Option β} (h : ∀ n, said' n = (said n).map (·.bind g)) (notices : List Notice) :
    lastSaid said' notices = (lastSaid said notices).bind g := by
  induction notices using List.reverseRecOn with
  | nil => rfl
  | append_singleton notices n ih =>
    rw [lastSaid_concat, lastSaid_concat, ih, h]
    cases said n <;> rfl

theorem exists_of_lastSaid {said : Notice → Option (Option α)} {x : α} (h : lastSaid said notices = some x) :
    ∃ n ∈ notices, said n = some (some x) := by
  rw [lastSaid] at h
  cases hl : (notices.filterMap said).getLast? with
  | none => simp [hl] at h
  | some y =>
    rw [hl, Option.getD_some] at h
    exact List.mem_filterMap.mp (List.mem_of_getLast? (h ▸ hl))

end LastSaid

namespace Notice

def key : Notice → Key
  | discovery k _ | collector k _ | discoveryGone k | collectorGone k => k

def discovery? (k : Key) : Notice → Option (Option Discovery.Status)
  | discovery k' s => if k = k' then some (some s) else none
  | discoveryGone k' => if k = k' then some none else none
  | _ => none

def collector? (k : Key) : Notice → Option (Option Collector.Status)
  | collector k' s => if k = k' then some (some s) else none
  | collectorGone k' => if k = k' then some none else none
  | _ => none

/-- What a notice says about the time of the last cycle: a status without one says nothing. -/
def cycle? (k : Key) : Notice → Option (Option Timestamp)
  | discovery k' s => if k = k' then s.lastDiscovered.map some else none
  | discoveryGone k' => if k = k' then some none else none
  | _ => none

end Notice

def latestDiscovery (notices : List Notice) (k : Key) : Option Discovery.Status :=
  lastSaid (Notice.discovery? k) notices

def latestCollector (notices : List Notice) (k : Key) : Option Collector.Status :=
  lastSaid (Notice.collector? k) notices

def lastCycle (notices : List Notice) (k : Key) : Option Timestamp := lastSaid (Notice.cycle? k) notices

/-! The statuses on the board -/

theorem heard_concat (up : Float) (notices : List Notice) (n : Notice) :
    heard up (notices ++ [n]) = (heard up notices).hear n := by
  rw [heard, List.foldl_append]
  rfl

theorem hear_discoveries (b : Board) (n : Notice) (k : Key) :
    (b.hear n).discoveries.get? k = (n.discovery? k).getD (b.discoveries.get? k) := by
  cases n with
  | discovery k' s =>
    rw [Board.hear, Board.updateDiscovery, Dict.get?_insert, Notice.discovery?]
    split <;> rfl
  | discoveryGone k' =>
    rw [Board.hear, Board.forgetDiscovery, Dict.get?_erase, Notice.discovery?]
    split <;> rfl
  | collector k' s => rfl
  | collectorGone k' => rfl

theorem hear_collectors (b : Board) (n : Notice) (k : Key) :
    (b.hear n).collectors.get? k = (n.collector? k).getD (b.collectors.get? k) := by
  cases n with
  | collector k' s =>
    rw [Board.hear, Board.updateCollector, Dict.get?_insert, Notice.collector?]
    split <;> rfl
  | collectorGone k' =>
    rw [Board.hear, Board.forgetCollector, Dict.get?_erase, Notice.collector?]
    split <;> rfl
  | discovery k' s => rfl
  | discoveryGone k' => rfl

theorem hear_up (b : Board) (n : Notice) : (b.hear n).up = b.up := by
  cases n <;> rfl

theorem foldl_hear {α : Type} (look : Board → Option α) {said : Notice → Option (Option α)}
    (h : ∀ b n, look (b.hear n) = (said n).getD (look b)) (b : Board) (notices : List Notice) :
    look (notices.foldl Board.hear b) = (notices.filterMap said).getLast?.getD (look b) := by
  induction notices using List.reverseRecOn with
  | nil => rfl
  | append_singleton notices n ih =>
    rw [List.foldl_append, List.foldl_cons, List.foldl_nil, h, ih, List.filterMap_append, List.getLast?_append]
    cases hn : said n <;> simp [hn]

theorem foldl_hear_discoveries (b : Board) (notices : List Notice) (k : Key) :
    (notices.foldl Board.hear b).discoveries.get? k =
      (notices.filterMap (Notice.discovery? k)).getLast?.getD (b.discoveries.get? k) :=
  foldl_hear (fun b => b.discoveries.get? k) (fun b n => hear_discoveries b n k) b notices

theorem heard_discoveries (up : Float) (notices : List Notice) (k : Key) :
    (heard up notices).discoveries.get? k = latestDiscovery notices k :=
  foldl_hear_discoveries ..

theorem heard_collectors (up : Float) (notices : List Notice) (k : Key) :
    (heard up notices).collectors.get? k = latestCollector notices k :=
  foldl_hear (fun b => b.collectors.get? k) (fun b n => hear_collectors b n k) _ notices

theorem heard_up (up : Float) (notices : List Notice) : (heard up notices).up = up := by
  induction notices using List.reverseRecOn with
  | nil => rfl
  | append_singleton notices n ih => rw [heard_concat, hear_up, ih]

/-! The numbers in the gauges -/

def unixSeconds (t : Timestamp) : Float := Float.ofInt t.seconds

def Family.ofCollector? : Family → Collector.Status → Option Float
  | collectorSent, s => some (word s.sent)
  | collectorErrors, s => some (word s.errors)
  | collectorFiltered, s => some (word s.filtered)
  | collectorCollected, s => some (word s.collected)
  | collectorInFlight, s => some (word s.inFlight)
  | collectorRegistered, s => some (word s.registeredDiscoveries)
  | _, _ => none

def Family.ofDiscovery? : Family → Discovery.Status → Option Float
  | discoveryActive, s => some (if s.active then 1 else 0)
  | discoveryResources, s => some (word s.discoveredResources)
  | discoveryReady, s => some (word s.readyCollectors)
  | discoveryTotal, s => some (word s.totalCollectors)
  | discoveryInFlight, s => some (word s.inFlight)
  | discoveryLast, s => s.lastDiscovered.map unixSeconds
  | _, _ => none

def Notice.reading? (f : Family) (k : Key) : Notice → Option (Option Float)
  | discovery k' s => if k = k' then (f.ofDiscovery? s).map some else none
  | collector k' s => if k = k' then (f.ofCollector? s).map some else none
  | discoveryGone k' => if k = k' ∧ f ∈ Family.ofDiscoveries then some none else none
  | collectorGone k' => if k = k' ∧ f ∈ Family.ofCollectors then some none else none

namespace Gauges

def value? (g : Gauges) (f : Family) (k : Key) : Option Float :=
  ((g.family f).get? (identity k)).bind fun s => if s.labels = k then some s.value else none

def Own (g : Gauges) (k : Key) : Prop := ∀ f s, (g.family f).get? (identity k) = some s → s.labels = k

variable {g : Gauges} {f f' : Family} {k k' : Key} {x : Float} {fs : List Family} {values : List (Family × Float)}

theorem value?_eq_some : g.value? f k = some x ↔ (g.family f).get? (identity k) = some ⟨k, x⟩ := by
  constructor
  · intro h
    obtain ⟨s, hs, hv⟩ := Option.bind_eq_some_iff.mp h
    split at hv
    · rename_i hl
      obtain rfl := Option.some.inj hv
      rw [hs, ← hl]
    · cases hv
  · intro h
    simp [value?, h]

theorem told_collector (f : Family) (s : Collector.Status) :
    told f (collectorValues s) none = f.ofCollector? s := by
  cases f <;> rfl

theorem told_discovery (f : Family) (s : Discovery.Status) :
    told f (discoveryValues s) none = f.ofDiscovery? s := by
  obtain ⟨active, last, ready, total, resources, inFlight⟩ := s
  cases last <;> cases f <;> rfl

end Gauges

section Numbers

variable {b : Board} {n : Notice} {notices : List Notice} {up : Float} {f : Family} {k : Key}

/-! A notice changes what is under the text of its key, and nothing else. -/

def Notice.leaves (n : Notice) (f : Family) (found : Option Series) : Option Series :=
  match n.reading? f n.key with
  | none => found
  | some none => none
  | some (some x) => some (Gauges.renewed n.key x found)

theorem hear_get? (b : Board) (n : Notice) (f : Family) (i : String) :
    ((b.hear n).gauges.family f).get? i =
      if i = Gauges.identity n.key then n.leaves f ((b.gauges.family f).get? i)
        else (b.gauges.family f).get? i := by
  cases n with
  | discovery k s =>
    refine Gauges.setAll_get?.trans ?_
    rw [Gauges.told_discovery, Notice.leaves, Notice.reading?, Notice.key, if_pos rfl]
    cases f.ofDiscovery? s <;> rfl
  | collector k s =>
    refine Gauges.setAll_get?.trans ?_
    rw [Gauges.told_collector, Notice.leaves, Notice.reading?, Notice.key, if_pos rfl]
    cases f.ofCollector? s <;> rfl
  | discoveryGone k =>
    refine Gauges.remove_get?.trans ?_
    rw [Notice.leaves, Notice.reading?, Notice.key]
    by_cases hi : i = Gauges.identity k <;> by_cases hf : f ∈ Family.ofDiscoveries <;> simp [hi, hf]
  | collectorGone k =>
    refine Gauges.remove_get?.trans ?_
    rw [Notice.leaves, Notice.reading?, Notice.key]
    by_cases hi : i = Gauges.identity k <;> by_cases hf : f ∈ Family.ofCollectors <;> simp [hi, hf]

theorem hear_value?_of_ne (ht : Gauges.identity n.key ≠ Gauges.identity k) :
    (b.hear n).gauges.value? f k = b.gauges.value? f k := by
  rw [Gauges.value?, hear_get?, if_neg ht.symm]
  rfl

theorem reading?_of_ne (h : n.key ≠ k) : n.reading? f k = none := by
  cases n <;> simp_all [Notice.reading?, Notice.key, eq_comm]

theorem hear_value? (own : b.gauges.Own k) (apart : Gauges.identity n.key = Gauges.identity k → n.key = k) :
    (b.hear n).gauges.value? f k = (n.reading? f k).getD (b.gauges.value? f k) := by
  by_cases ht : Gauges.identity n.key = Gauges.identity k
  · obtain rfl := apart ht
    rw [Gauges.value?, hear_get?, if_pos rfl, Notice.leaves, Gauges.value?]
    cases hs : (b.gauges.family f).get? (Gauges.identity n.key) with
    | none => rcases n.reading? f n.key with - | - | x <;> simp [Gauges.renewed]
    | some s =>
      have hl := own f s hs
      rcases n.reading? f n.key with - | - | x <;> simp [Gauges.renewed, hl]
  · rw [hear_value?_of_ne ht, reading?_of_ne fun hk => ht (congrArg _ hk), Option.getD_none]

theorem hear_series {i : String} {s : Series} (h : ((b.hear n).gauges.family f).get? i = some s) :
    (∃ s', (b.gauges.family f).get? i = some s' ∧ s'.labels = s.labels) ∨ i = Gauges.identity n.key ∧
    s.labels = n.key := by
  rw [hear_get?] at h
  split at h
  · rename_i hi
    rw [Notice.leaves] at h
    split at h
    · exact .inl ⟨s, h, rfl⟩
    · cases h
    · obtain rfl := Option.some.inj h
      cases hs : (b.gauges.family f).get? i with
      | none => exact .inr ⟨hi, rfl⟩
      | some s' => exact .inl ⟨s', rfl, rfl⟩
  · exact .inl ⟨s, h, rfl⟩

theorem heard_series {i : String} {s : Series} (h : ((heard up notices).gauges.family f).get? i = some s) :
    i = Gauges.identity s.labels ∧ ∃ n ∈ notices, n.key = s.labels := by
  induction notices using List.reverseRecOn generalizing s with
  | nil => simp [heard, Board.empty, Gauges.family, Gauges.empty, Dict.getD] at h
  | append_singleton notices n ih =>
    rw [heard_concat] at h
    rcases hear_series h with ⟨s', hs', hl⟩ | ⟨hi, hl⟩
    · obtain ⟨hi, m, hm, hk⟩ := ih hs'
      exact ⟨hl ▸ hi, m, List.mem_append_left _ hm, hk.trans hl⟩
    · exact ⟨hl ▸ hi, n, by simp, hl.symm⟩

def Apart (notices : List Notice) (k : Key) : Prop :=
  ∀ n ∈ notices, Gauges.identity n.key = Gauges.identity k → n.key = k

def Unmixed (notices : List Notice) : Prop := ∀ n ∈ notices, Apart notices n.key

instance (notices : List Notice) (k : Key) : Decidable (Apart notices k) := by unfold Apart; infer_instance

instance (notices : List Notice) : Decidable (Unmixed notices) := by unfold Unmixed; infer_instance

theorem Apart.own (h : Apart notices k) (up : Float) : (heard up notices).gauges.Own k := by
  intro f s hs
  obtain ⟨hi, n, hn, hk⟩ := heard_series hs
  rw [← hk]
  exact h n hn (hk ▸ hi.symm)

theorem Apart.value? (h : Apart notices k) (up : Float) (f : Family) :
    (heard up notices).gauges.value? f k = lastSaid (Notice.reading? f k) notices := by
  induction notices using List.reverseRecOn with
  | nil => simp [heard, Board.empty, Gauges.value?, Gauges.family, Gauges.empty, Dict.getD, lastSaid]
  | append_singleton notices n ih =>
    have before : Apart notices k := fun m hm => h m (List.mem_append_left _ hm)
    rw [heard_concat, hear_value? (before.own up) (h n (by simp)), ih before, lastSaid_concat]

theorem key_of_reading {x : Float} (h : n.reading? f k = some (some x)) : n.key = k := by
  cases n <;> simp only [Notice.reading?] at h <;> split at h <;> simp_all [Notice.key]

theorem Unmixed.value? (h : Unmixed notices) (up : Float) (f : Family) (k : Key) :
    (heard up notices).gauges.value? f k = lastSaid (Notice.reading? f k) notices := by
  by_cases hk : ∃ n ∈ notices, n.key = k
  · obtain ⟨n, hn, rfl⟩ := hk
    exact (h n hn).value? up f
  · -- neither is a series labelled with a key that is not in the history, nor does a notice say so
    have shown : (heard up notices).gauges.value? f k = none := by
      refine Option.eq_none_iff_forall_ne_some.mpr fun x hx => hk ?_
      exact (heard_series (Gauges.value?_eq_some.mp hx)).2
    have said : lastSaid (Notice.reading? f k) notices = none := by
      refine Option.eq_none_iff_forall_ne_some.mpr fun x hx => hk ?_
      obtain ⟨n, hn, hr⟩ := exists_of_lastSaid hx
      exact ⟨n, hn, key_of_reading hr⟩
    rw [shown, said]

theorem readings_collector (hf : f ∈ Family.ofCollectors) (notices : List Notice) (k : Key) :
    lastSaid (Notice.reading? f k) notices = (latestCollector notices k).bind f.ofCollector? := by
  have hno : f ∉ Family.ofDiscoveries := by revert f; decide
  have hd (s : Discovery.Status) : f.ofDiscovery? s = none := by
    revert hf; cases f <;> simp [Family.ofCollectors, Family.ofDiscovery?]
  have hc (s : Collector.Status) : (f.ofCollector? s).map some = some (f.ofCollector? s) := by
    revert hf; cases f <;> simp [Family.ofCollectors, Family.ofCollector?]
  apply lastSaid_bind
  intro n
  cases n with
  | discovery k' s => simp [Notice.reading?, Notice.collector?, hd]
  | discoveryGone k' => simp [Notice.reading?, Notice.collector?, hno]
  | collector k' s =>
    simp only [Notice.reading?, Notice.collector?, hc]
    split <;> rfl
  | collectorGone k' =>
    simp only [Notice.reading?, Notice.collector?, hf, and_true]
    split <;> rfl

theorem readings_discovery (hf : f ∈ Family.ofDiscoveries) (hl : f ≠ .discoveryLast)
    (notices : List Notice) (k : Key) :
    lastSaid (Notice.reading? f k) notices = (latestDiscovery notices k).bind f.ofDiscovery? := by
  have hno : f ∉ Family.ofCollectors := by revert f; decide
  have hc (s : Collector.Status) : f.ofCollector? s = none := by
    revert hf; cases f <;> simp [Family.ofDiscoveries, Family.ofCollector?]
  have hd (s : Discovery.Status) : (f.ofDiscovery? s).map some = some (f.ofDiscovery? s) := by
    revert hf hl; cases f <;> simp [Family.ofDiscoveries, Family.ofDiscovery?]
  apply lastSaid_bind
  intro n
  cases n with
  | discovery k' s =>
    simp only [Notice.reading?, Notice.discovery?, hd]
    split <;> rfl
  | discoveryGone k' =>
    simp only [Notice.reading?, Notice.discovery?, hf, and_true]
    split <;> rfl
  | collector k' s => simp [Notice.reading?, Notice.discovery?, hc]
  | collectorGone k' => simp [Notice.reading?, Notice.discovery?, hno]

theorem readings_last (notices : List Notice) (k : Key) :
    lastSaid (Notice.reading? .discoveryLast k) notices = (lastCycle notices k).map unixSeconds := by
  rw [Option.map_eq_bind]
  apply lastSaid_bind
  intro n
  cases n with
  | discovery k' s =>
    simp only [Notice.reading?, Notice.cycle?, Family.ofDiscovery?]
    split <;> cases s.lastDiscovered <;> rfl
  | discoveryGone k' =>
    simp only [Notice.reading?, Notice.cycle?]
    split <;> simp_all [Family.ofDiscoveries]
  | collector k' s => simp [Notice.reading?, Notice.cycle?, Family.ofCollector?]
  | collectorGone k' => simp [Notice.reading?, Notice.cycle?, Family.ofCollectors]

end Numbers

/-! The two views -/

structure Lists {α : Type} (ordering : Key → Key → Ordering) (value? : Key → Option α)
    (l : List (Key × α)) : Prop where
  sorted : l.Pairwise fun a b => ordering a.1 b.1 = .lt
  mem : ∀ k x, (k, x) ∈ l ↔ value? k = some x

def byName : Key → Key → Ordering := compareLex (compareOn Key.name) (compareOn Key.namespace)

instance : TransCmp byName :=
  inferInstanceAs (TransCmp (compareLex (compareOn Key.name) (compareOn Key.namespace)))

instance : LawfulEqCmp byName where
  eq_of_compare {a b} h := by
    rw [byName, compareLex_eq_eq] at h
    cases a; cases b
    simpa [compareOn, and_comm] using h

def entry (k : Key) (status : Json) : Json :=
  .obj [("namespace", .str k.namespace), ("name", .str k.name), ("status", status)]

def listing (discoveries : List (Key × Discovery.Status)) (collectors : List (Key × Collector.Status)) : Json :=
  .obj [("discoveries", .arr (discoveries.map fun e => entry e.1 e.2.toJson)),
    ("collectors", .arr (collectors.map fun e => entry e.1 e.2.toJson))]

def rowText (f : Family) (row : Key × Float) : String := Board.seriesLine f.name ⟨row.1, row.2⟩

def table (f : Family) (rows : List (Key × Float)) : String :=
  if rows.isEmpty then ""
  else Board.header f.name f.help ++ String.join (rows.map (rowText f))

def page (rows : Family → List (Key × Float)) (up : Float) : String :=
  String.join (Family.all.map fun f => table f (rows f)) ++
    Board.header "strata_up" "Collector service status (1=running)" ++ "strata_up " ++ Decimal.text up ++ "\n"

section Views

variable {α : Type} {notices : List Notice} {f : Family} {k : Key}

theorem lists_dict {d : Dict Key α} {value? : Key → Option α} (h : ∀ k, d.get? k = value? k) :
    Lists compare value? d.toList :=
  ⟨d.sorted, fun k x => by rw [← h, Dict.get?_eq_some, Dict.toList]⟩

def Board.rows (b : Board) (f : Family) : List (Key × Float) :=
  ((b.gauges.family f).values.mergeSort seriesOrder).map fun s => (s.labels, s.value)

theorem render_page (b : Board) : b.render = page b.rows b.up := by
  have tables (f : Family) : Board.familyText f (b.gauges.family f).values = table f (b.rows f) := by
    have he : (b.rows f).isEmpty = (b.gauges.family f).values.isEmpty := by
      rw [Bool.eq_iff_iff, List.isEmpty_iff_length_eq_zero, List.isEmpty_iff_length_eq_zero, Board.rows,
        List.length_map, List.length_mergeSort]
    rw [Board.familyText, table, he, Board.rows, List.map_map]
    rfl
  rw [Board.render, page, List.map_congr_left fun f _ => tables f]

theorem seriesOrder_eq (s s' : Series) : Board.seriesOrder s s' = (byName s.labels s'.labels).isLE := rfl

theorem rows_sorted {b : Board} (h : b.gauges.Keyed) (f : Family) :
    (b.rows f).Pairwise fun r r' => byName r.1 r'.1 = .lt := by
  have trans (s s' s'' : Series) (h : Board.seriesOrder s s' = true) (h' : Board.seriesOrder s' s'' = true) :
      Board.seriesOrder s s'' = true := by
    rw [seriesOrder_eq] at h h' ⊢
    exact TransCmp.isLE_trans h h'
  have total (s s' : Series) : (Board.seriesOrder s s' || Board.seriesOrder s' s) = true := by
    have swap : byName s.labels s'.labels = (byName s'.labels s.labels).swap := OrientedCmp.eq_swap
    rw [seriesOrder_eq, seriesOrder_eq, swap]
    cases byName s'.labels s.labels <;> rfl
  -- two series of a family are under different texts, so they are of different keys
  have distinct : (b.gauges.family f).values.Pairwise fun s s' => s.labels ≠ s'.labels := by
    refine List.pairwise_map.mpr ((b.gauges.family f).sorted.imp_of_mem fun {e e'} he he' hlt heq => ?_)
    have hi := h f e.1 e.2 (Dict.get?_eq_some.mpr he)
    have hi' := h f e'.1 e'.2 (Dict.get?_eq_some.mpr he')
    have self : compare e.1 e'.1 = .eq := by
      rw [← hi, ← hi', heq]
      exact ReflCmp.compare_self
    simp [self] at hlt
  have kept :=
    (List.mergeSort_perm (b.gauges.family f).values Board.seriesOrder).symm.pairwise distinct fun h => h.symm
  refine List.pairwise_map.mpr ((List.pairwise_mergeSort trans total _).imp₂ (fun s s' hle hne => ?_) kept)
  rw [seriesOrder_eq] at hle
  rcases Ordering.isLE_iff_eq_lt_or_eq_eq.mp hle with hlt | heq
  · exact hlt
  · exact absurd (LawfulEqCmp.eq_of_compare heq) hne

theorem mem_rows {b : Board} (h : b.gauges.Keyed) {x : Float} :
    (k, x) ∈ b.rows f ↔ b.gauges.value? f k = some x := by
  rw [Gauges.value?_eq_some, Board.rows, List.mem_map]
  constructor
  · rintro ⟨s, hs, he⟩
    obtain ⟨i, hi⟩ := Dict.mem_values.mp (List.mem_mergeSort.mp hs)
    have hk := h f i s hi
    obtain ⟨rfl, rfl⟩ := Prod.mk.inj he
    rw [hk, hi]
  · intro hs
    exact ⟨⟨k, x⟩, List.mem_mergeSort.mpr (Dict.mem_values.mpr ⟨_, hs⟩), rfl⟩

theorem infix_join {t : String} {texts : List String} (h : t ∈ texts) :
    t.toList <:+: (String.join texts).toList := by
  rw [String.toList_join, List.flatMap]
  exact List.infix_of_mem_flatten (List.mem_map_of_mem h)

theorem row_shown {rows : Family → List (Key × Float)} {r : Key × Float} (h : r ∈ rows f) (up : Float) :
    (rowText f r).toList <:+: (page rows up).toList := by
  have inTable : (rowText f r).toList <:+: (table f (rows f)).toList := by
    rw [table, if_neg (by simpa using List.ne_nil_of_mem h), String.toList_append]
    exact (infix_join (List.mem_map_of_mem h)).trans (List.suffix_append _ _).isInfix
  have all : f ∈ Family.all := by cases f <;> decide
  have inTables := inTable.trans (infix_join (List.mem_map_of_mem (f := fun f => table f (rows f)) all))
  simp only [page, String.toList_append, List.append_assoc]
  exact List.infix_append_of_infix_left inTables

theorem heard_keyed (up : Float) (notices : List Notice) : (heard up notices).gauges.Keyed :=
  fun _ _ _ hs => (heard_series hs).1.symm

theorem lists_rows (h : Unmixed notices) (up : Float) (f : Family) :
    Lists byName (fun k => lastSaid (Notice.reading? f k) notices) ((heard up notices).rows f) := by
  refine ⟨rows_sorted (heard_keyed up notices) f, fun k x => ?_⟩
  rw [mem_rows (heard_keyed up notices), h.value?]

theorem heard_page (up : Float) (notices : List Notice) :
    (heard up notices).render = page (heard up notices).rows up := by
  rw [render_page, heard_up]

/-- Both views of a board show the same: the keys that it was told of since it last forgot them, with what it
was last told. The gauges also need the texts of the keys to be different, and the time of the last cycle is
left out here. -/
theorem views_agree (notices : List Notice) (up : Float) :
    (∃ discoveries collectors, (heard up notices).snapshot = listing discoveries collectors ∧
      Lists compare (latestDiscovery notices) discoveries ∧
      Lists compare (latestCollector notices) collectors) ∧
    (Unmixed notices → ∃ rows, (heard up notices).render = page rows up ∧
      (∀ f ∈ Family.ofCollectors, Lists byName
        (fun k => (latestCollector notices k).bind f.ofCollector?) (rows f)) ∧
      ∀ f ∈ Family.ofDiscoveries, f ≠ .discoveryLast →
        Lists byName (fun k => (latestDiscovery notices k).bind f.ofDiscovery?) (rows f)) := by
  constructor
  · exact ⟨_, _, rfl, lists_dict (heard_discoveries up notices), lists_dict (heard_collectors up notices)⟩
  · intro h
    refine ⟨_, heard_page up notices, fun f hf => ?_, fun f hf hl => ?_⟩
    · have rows := lists_rows h up f
      rwa [funext fun k => readings_collector hf notices k] at rows
    · have rows := lists_rows h up f
      rwa [funext fun k => readings_discovery hf hl notices k] at rows

def episode : List Notice :=
  [.discovery ⟨"shop", "pods"⟩ ⟨true, some ⟨1754006400, 0⟩, 1, 2, 3, 4⟩,
    .collector ⟨"shop", "main"⟩ .zero, .discovery ⟨"shop", "nodes"⟩ .idle,
    .discoveryGone ⟨"shop", "nodes"⟩]

theorem views_agree_episode : Unmixed episode ∧ latestDiscovery episode ⟨"shop", "nodes"⟩ = none ∧
    ∃ rows, (heard 1 episode).render = page rows 1 ∧
    (⟨"shop", "pods"⟩, word 3) ∈ rows .discoveryResources ∧
      (⟨"shop", "main"⟩, word 0) ∈ rows .collectorSent := by
  have unmixed : Unmixed episode := by decide
  obtain ⟨rows, hr, hc, hd⟩ := (views_agree episode 1).2 unmixed
  refine ⟨unmixed, by decide, rows, hr, ?_, ?_⟩
  · exact ((hd .discoveryResources (by decide) (by decide)).mem _ _).mpr rfl
  · exact ((hc .collectorSent (by decide)).mem _ _).mpr rfl

/-! The time of the last cycle -/

/-- A stored status has no time of a cycle where an earlier one had. -/
def Stale (notices : List Notice) (k : Key) : Prop :=
  (latestDiscovery notices k).map (·.lastDiscovered) = some none ∧ (lastCycle notices k).isSome

instance (notices : List Notice) (k : Key) : Decidable (Stale notices k) := by unfold Stale; infer_instance

theorem lastCycle_concat (notices : List Notice) (n : Notice) (k : Key) :
    lastCycle (notices ++ [n]) k = (n.cycle? k).getD (lastCycle notices k) := lastSaid_concat ..

theorem latestDiscovery_concat (notices : List Notice) (n : Notice) (k : Key) :
    latestDiscovery (notices ++ [n]) k = (n.discovery? k).getD (latestDiscovery notices k) := lastSaid_concat ..

theorem lastCycle_eq (notices : List Notice) (k : Key) : lastCycle notices k =
    (latestDiscovery notices k).bind fun s => s.lastDiscovered.or (lastCycle notices k) := by
  induction notices using List.reverseRecOn with
  | nil => rfl
  | append_singleton notices n ih =>
    rw [lastCycle_concat, latestDiscovery_concat]
    cases n with
    | discovery k' s =>
      simp only [Notice.cycle?, Notice.discovery?]
      split
      · cases hs : s.lastDiscovered <;> simp [hs]
      · exact ih
    | discoveryGone k' =>
      simp only [Notice.cycle?, Notice.discovery?]
      split
      · rfl
      · exact ih
    | collector k' s => exact ih
    | collectorGone k' => exact ih

theorem lastCycle_of_not_stale (h : ¬ Stale notices k) :
    lastCycle notices k = (latestDiscovery notices k).bind (·.lastDiscovered) := by
  rw [lastCycle_eq]
  cases hs : latestDiscovery notices k with
  | none => rfl
  | some s =>
    cases ht : s.lastDiscovered with
    | some t => simp [ht]
    | none =>
      have hno : lastCycle notices k = none := by
        simpa [Stale, hs, ht] using h
      simp [ht, hno]

/-- The gauges show the last time of a cycle that the board was told since it last forgot the discovery. This is
the time of the stored status, unless that status has none and an earlier one had. -/
theorem last_cycles_shown (notices : List Notice) (up : Float) :
    ∃ rows, (heard up notices).render = page rows up ∧ ∀ k, Apart notices k →
      (∀ x, (k, x) ∈ rows .discoveryLast ↔ (lastCycle notices k).map unixSeconds = some x) ∧
      (¬ Stale notices k → lastCycle notices k =
        ((heard up notices).discoveries.get? k).bind (·.lastDiscovered)) := by
  refine ⟨_, heard_page up notices, fun k hk => ⟨fun x => ?_, fun fresh => ?_⟩⟩
  · rw [mem_rows (heard_keyed up notices), hk.value? up, readings_last]
  · rw [heard_discoveries, lastCycle_of_not_stale fresh]

theorem last_cycles_shown_episode :
    Apart episode ⟨"shop", "pods"⟩ ∧ ¬ Stale episode ⟨"shop", "pods"⟩ ∧
    lastCycle episode ⟨"shop", "pods"⟩ = some ⟨1754006400, 0⟩ ∧
    ∃ rows, (heard 1 episode).render = page rows 1 ∧
      (⟨"shop", "pods"⟩, unixSeconds ⟨1754006400, 0⟩) ∈ rows .discoveryLast := by
  have apart : Apart episode ⟨"shop", "pods"⟩ := by decide
  have fresh : ¬ Stale episode ⟨"shop", "pods"⟩ := by decide
  obtain ⟨rows, hr, hm⟩ := last_cycles_shown episode 1
  obtain ⟨shown, stored⟩ := hm _ apart
  exact ⟨apart, fresh, stored fresh, rows, hr, (shown _).mpr rfl⟩

def disabled : List Notice :=
  [.discovery ⟨"shop", "pods"⟩ ⟨true, some ⟨1754006400, 0⟩, 1, 2, 3, 4⟩,
    .discovery ⟨"shop", "pods"⟩ .idle]

theorem stale_disabled : Apart disabled ⟨"shop", "pods"⟩ ∧
    ((heard 1 disabled).discoveries.get? ⟨"shop", "pods"⟩).map (·.lastDiscovered) = some none ∧
    (rowText .discoveryLast (⟨"shop", "pods"⟩, unixSeconds ⟨1754006400, 0⟩)).toList <:+: (heard 1
      disabled).render.toList := by
  refine ⟨by decide, by decide +kernel, ?_⟩
  rw [heard_page]
  exact row_shown ((mem_rows (heard_keyed 1 disabled)).mpr rfl) 1

end Views

end ScrapeRelay.Status
