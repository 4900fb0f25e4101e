import Mathlib.Data.List.Forall2
import ScrapeRelay.Settings

/-!
What keeps the service from running is looked for in a fixed order: the two intervals, the keys of the
collectors, the keys of the discoveries. Of the keys of one kind the first is refused that an earlier
declaration has, too.
-/

namespace ScrapeRelay.Settings

open Document (Reading fields? list?)

variable {α : Type} {k : Key} {ks seen : List Key} {ds : List (Declaration α)} {s : Settings} {p q : Problem}
  {r : Reading} {j : Json}

def Declaration.SameKey (d e : Declaration α) : Prop :=
  d.key.namespace = e.key.namespace ∧ d.key.name = e.key.name

def AllDistinct (ds : List (Declaration α)) : Prop := ds.Pairwise fun d e => ¬ d.SameKey e

/-- The key of the first declaration that has the key of an earlier one. -/
def FirstAgain (ds : List (Declaration α)) (k : Key) : Prop :=
  ∃ before d after, ds = before ++ d :: after ∧ d.key = k ∧ (∃ e ∈ before, e.SameKey d) ∧
  AllDistinct before

def Has (s : Settings) : Problem → Prop
  | .scrapeTimeout => s.scrapeTimeoutSeconds = 0
  | .statusInterval => s.statusIntervalSeconds = 0
  | .repeatedCollector k => FirstAgain s.collectors k
  | .repeatedDiscovery k => FirstAgain s.discoveries k

def Problem.rank : Problem → ℕ
  | scrapeTimeout => 0
  | statusInterval => 1
  | repeatedCollector _ => 2
  | repeatedDiscovery _ => 3

/-- A declaration with this key. It may leave the namespace out. -/
def Writes (r : Reading) (j : Json) (k : Key) : Prop :=
  ∃ fs, fields? r ["namespace", "name", "spec"] j = some fs ∧ (fs.find? "name").bind r.text? = some k.name ∧
    (match fs.find? "namespace" with
      | none => k.namespace = "default"
      | some written => r.text? written = some k.namespace)

/-- A document with declarations of these keys, in their order, under one of its names. -/
def ListsKeys (r : Reading) (name : String) (j : Json) (ks : List Key) : Prop :=
  ∃ fs, fields? r ["server", "scrape", "status", "cluster", "discoveries", "collectors"] j = some fs ∧
    (match fs.find? name with
      | none => ks = []
      | some written => ∃ items, written = .arr items ∧ List.Forall₂ (Writes r) items ks)

/-! The keys that were seen are those read so far, so the two lists together stay the same while one key after
the other goes over. -/

theorem not_nodup_seen (h : k ∈ seen) : ¬ (seen ++ k :: ks).Nodup := by
  intro hn
  exact (List.nodup_append.mp hn).2.2 k h k List.mem_cons_self rfl

theorem firstRepeated_eq_none (hs : seen.Nodup) : firstRepeated seen ks = none ↔ (seen ++ ks).Nodup := by
  induction ks generalizing seen with
  | nil => simpa [firstRepeated] using hs
  | cons k ks ih =>
    rw [firstRepeated]
    by_cases hk : k ∈ seen
    · simp [hk, not_nodup_seen hk]
    · rw [if_neg hk, ih (List.nodup_cons.mpr ⟨hk, hs⟩)]
      exact List.perm_middle.symm.nodup_iff

theorem firstRepeated_eq_some (hs : seen.Nodup) : firstRepeated seen ks = some k ↔
    ∃ before after, ks = before ++ k :: after ∧ k ∈ seen ++ before ∧ (seen ++ before).Nodup := by
  induction ks generalizing seen with
  | nil => simp [firstRepeated]
  | cons a ks ih =>
    rw [firstRepeated]
    by_cases ha : a ∈ seen
    · rw [if_pos ha]
      constructor
      · rintro ⟨⟩
        exact ⟨[], ks, rfl, by simpa using ha, by simpa using hs⟩
      · rintro ⟨before, after, h, -, hn⟩
        cases before with
        | nil => rw [(List.cons.inj h).1]
        | cons b before =>
          obtain ⟨rfl, -⟩ := List.cons.inj h
          exact absurd hn (not_nodup_seen ha)
    · rw [if_neg ha, ih (List.nodup_cons.mpr ⟨ha, hs⟩)]
      have perm (before : List Key) : (a :: seen ++ before).Perm (seen ++ a :: before) := List.perm_middle.symm
      constructor
      · rintro ⟨before, after, rfl, hk, hn⟩
        exact ⟨a :: before, after, rfl, (perm before).mem_iff.mp hk, (perm before).nodup_iff.mp hn⟩
      · rintro ⟨before, after, h, hk, hn⟩
        cases before with
        | nil =>
          obtain ⟨rfl, -⟩ := List.cons.inj h
          exact absurd (by simpa using hk) ha
        | cons b before =>
          obtain ⟨rfl, rfl⟩ := List.cons.inj h
          exact ⟨before, after, rfl, (perm before).mem_iff.mpr hk, (perm before).nodup_iff.mpr hn⟩

theorem Declaration.sameKey_iff {d e : Declaration α} : d.SameKey e ↔ d.key = e.key := by
  obtain ⟨⟨_, _⟩, _⟩ := d
  obtain ⟨⟨_, _⟩, _⟩ := e
  simp [SameKey]

theorem allDistinct_iff : AllDistinct ds ↔ (ds.map (·.key)).Nodup := by
  simp only [AllDistinct, Declaration.sameKey_iff, List.Nodup, List.pairwise_map, ne_eq]

theorem allDistinct_iff_none : AllDistinct ds ↔ firstRepeated [] (ds.map (·.key)) = none := by
  rw [allDistinct_iff, firstRepeated_eq_none List.nodup_nil, List.nil_append]

theorem firstAgain_iff : FirstAgain ds k ↔ firstRepeated [] (ds.map (·.key)) = some k := by
  simp only [FirstAgain, firstRepeated_eq_some List.nodup_nil, allDistinct_iff, Declaration.sameKey_iff,
    List.nil_append]
  constructor
  · rintro ⟨before, d, after, rfl, rfl, ⟨e, he, hk⟩, hn⟩
    exact ⟨before.map (·.key), after.map (·.key), by simp, List.mem_map.mpr ⟨e, he, hk⟩, hn⟩
  · rintro ⟨before, after, h, hk, hn⟩
    obtain ⟨first, rest, rfl, rfl, hr⟩ := List.map_eq_append_iff.mp h
    obtain ⟨d, last, rfl, rfl, -⟩ := List.map_eq_cons_iff.mp hr
    obtain ⟨e, he, hk⟩ := List.mem_map.mp hk
    exact ⟨first, d, last, rfl, rfl, ⟨e, he, hk⟩, hn⟩

/-! Problems in their order -/

theorem validate_eq_ok : s.validate = .ok () ↔ s.problem? = none := by
  rw [validate]
  cases s.problem? <;> simp

theorem validate_eq_error : s.validate = .error p ↔ s.problem? = some p := by
  rw [validate]
  cases s.problem? <;> simp

theorem problem?_eq_none : s.problem? = none ↔ s.scrapeTimeoutSeconds ≠ 0 ∧ s.statusIntervalSeconds ≠ 0 ∧
    AllDistinct s.collectors ∧ AllDistinct s.discoveries := by
  rw [problem?]
  split
  · simp [*]
  · split
    · simp [*]
    · simp only [*, ne_eq, not_false_eq_true, true_and, Option.or_eq_none_iff, Option.map_eq_none_iff,
        allDistinct_iff_none]

theorem distinct_keys (h : s.validate = .ok ()) :
    (s.collectors.map (·.key)).Nodup ∧ (s.discoveries.map (·.key)).Nodup := by
  obtain ⟨-, -, hc, hd⟩ := problem?_eq_none.mp (validate_eq_ok.mp h)
  exact ⟨allDistinct_iff.mp hc, allDistinct_iff.mp hd⟩

theorem Has.not_valid (h : s.Has p) : s.problem? ≠ none := by
  intro hn
  obtain ⟨ht, hi, hc, hd⟩ := problem?_eq_none.mp hn
  rw [allDistinct_iff_none] at hc hd
  cases p with
  | scrapeTimeout => exact ht h
  | statusInterval => exact hi h
  | repeatedCollector k => simp [firstAgain_iff.mp h] at hc
  | repeatedDiscovery k => simp [firstAgain_iff.mp h] at hd

theorem Has.unique (hp : s.Has p) (hq : s.Has q) (h : p.rank = q.rank) : p = q := by
  have again {α : Type} {ds : List (Declaration α)} {k k' : Key} (hk : FirstAgain ds k)
      (hk' : FirstAgain ds k') :
      k = k' := Option.some.inj ((firstAgain_iff.mp hk).symm.trans (firstAgain_iff.mp hk'))
  cases p <;> cases q <;> simp only [Problem.rank, reduceCtorEq, Nat.reduceEqDiff] at h
  · rfl
  · rfl
  · rw [again hp hq]
  · rw [again hp hq]

theorem problem?_first (h : s.problem? = some p) : s.Has p ∧ ∀ q, s.Has q → p.rank ≤ q.rank := by
  rw [problem?] at h
  split at h
  · rename_i ht
    obtain rfl := Option.some.inj h
    exact ⟨ht, fun q _ => Nat.zero_le _⟩
  · rename_i ht
    split at h
    · rename_i hi
      obtain rfl := Option.some.inj h
      refine ⟨hi, fun q hq => ?_⟩
      cases q with
      | scrapeTimeout => exact absurd hq ht
      | statusInterval | repeatedCollector | repeatedDiscovery => simp [Problem.rank]
    · rename_i hi
      rcases Option.or_eq_some_iff.mp h with hc | ⟨hc, hd⟩
      · obtain ⟨k, hk, rfl⟩ := Option.map_eq_some_iff.mp hc
        refine ⟨firstAgain_iff.mpr hk, fun q hq => ?_⟩
        cases q with
        | scrapeTimeout => exact absurd hq ht
        | statusInterval => exact absurd hq hi
        | repeatedCollector | repeatedDiscovery => simp [Problem.rank]
      · obtain ⟨k, hk, rfl⟩ := Option.map_eq_some_iff.mp hd
        refine ⟨firstAgain_iff.mpr hk, fun q hq => ?_⟩
        cases q with
        | scrapeTimeout => exact absurd hq ht
        | statusInterval => exact absurd hq hi
        | repeatedCollector k' => simp [firstAgain_iff.mp hq] at hc
        | repeatedDiscovery => simp [Problem.rank]

theorem problem?_eq_some : s.problem? = some p ↔ s.Has p ∧ ∀ q, s.Has q → p.rank ≤ q.rank := by
  constructor
  · exact problem?_first
  · rintro ⟨hp, hmin⟩
    obtain ⟨q, hq⟩ := Option.ne_none_iff_exists'.mp hp.not_valid
    obtain ⟨hh, hleast⟩ := problem?_first hq
    rw [hq, hp.unique hh (Nat.le_antisymm (hmin q hh) (hleast p hp))]

/-! Keys as they are written -/

theorem Declaration.decode?_writes [Inhabited α] {f : Reading → Json → Option α} {d : Declaration α}
    (h : decode? f r j = some d) : Writes r j d.key := by
  rw [decode?] at h
  obtain ⟨fs, hf, h⟩ := Option.bind_eq_some_iff.mp h
  obtain ⟨space, hs, h⟩ := Option.bind_eq_some_iff.mp h
  obtain ⟨name, hn, h⟩ := Option.bind_eq_some_iff.mp h
  obtain ⟨spec, -, h⟩ := Option.bind_eq_some_iff.mp h
  obtain rfl := Option.some.inj h
  refine ⟨fs, hf, hn, ?_⟩
  rw [Document.Fields.withDefault] at hs
  cases hw : fs.find? "namespace" with
  | none =>
    rw [hw] at hs
    exact (Option.some.inj hs).symm
  | some written =>
    rw [hw] at hs
    exact hs

theorem mapM_writes [Inhabited α] {f : Reading → Json → Option α} {items : List Json}
    (h : items.mapM (Declaration.decode? f r) = some ds) : List.Forall₂ (Writes r) items (ds.map (·.key)) := by
  induction items generalizing ds with
  | nil =>
    obtain rfl := Option.some.inj h
    exact .nil
  | cons item items ih =>
    rw [List.mapM_cons] at h
    obtain ⟨d, hd, h⟩ := Option.bind_eq_some_iff.mp h
    obtain ⟨rest, hr, h⟩ := Option.bind_eq_some_iff.mp h
    obtain rfl := Option.some.inj h
    exact .cons (Declaration.decode?_writes hd) (ih hr)

theorem listsKeys_of [Inhabited α] {f : Reading → Json → Option α} {fs : Document.Fields} {name : String}
    (hf : fields? r ["server", "scrape", "status", "cluster", "discoveries", "collectors"] j = some fs)
    (h : fs.withDefault name [] (list? (Declaration.decode? f r)) = some ds) :
    ListsKeys r name j (ds.map (·.key)) := by
  refine ⟨fs, hf, ?_⟩
  rw [Document.Fields.withDefault] at h
  cases hw : fs.find? name with
  | none =>
    rw [hw] at h
    obtain rfl := Option.some.inj h
    exact rfl
  | some written =>
    rw [hw] at h
    cases written with
    | arr items => exact ⟨items, rfl, mapM_writes h⟩
    | null | bool | num | str | obj => cases h

theorem decode?_lists (h : decode? r j = some s) :
    ListsKeys r "collectors" j (s.collectors.map (·.key)) ∧
    ListsKeys r "discoveries" j (s.discoveries.map (·.key)) := by
  rw [decode?] at h
  obtain ⟨fs, hf, h⟩ := Option.bind_eq_some_iff.mp h
  obtain ⟨server, -, h⟩ := Option.bind_eq_some_iff.mp h
  obtain ⟨timeout, -, h⟩ := Option.bind_eq_some_iff.mp h
  obtain ⟨interval, -, h⟩ := Option.bind_eq_some_iff.mp h
  obtain ⟨cluster, -, h⟩ := Option.bind_eq_some_iff.mp h
  obtain ⟨discoveries, hd, h⟩ := Option.bind_eq_some_iff.mp h
  obtain ⟨collectors, hc, h⟩ := Option.bind_eq_some_iff.mp h
  obtain rfl := Option.some.inj h
  exact ⟨listsKeys_of hf hc, listsKeys_of hf hd⟩

/-- Settings are valid just if both intervals have a length and no two collectors and no two discoveries have
one key. Of others the first problem is told, with the key that comes again. The keys are those of the document,
in its order; where a namespace is left out, it is `default`. -/
theorem validate_exact (s : Settings) :
    (s.validate = .ok () ↔ s.scrapeTimeoutSeconds ≠ 0 ∧ s.statusIntervalSeconds ≠ 0 ∧
      AllDistinct s.collectors ∧ AllDistinct s.discoveries) ∧
    (∀ p, s.validate = .error p ↔ s.Has p ∧ ∀ q, s.Has q → p.rank ≤ q.rank) ∧
    (∀ k : Key,
      (Problem.repeatedCollector k).text = "collector " ++ k.namespace ++ "/" ++ k.name ++
        " declared more than once" ∧
      (Problem.repeatedDiscovery k).text = "discovery " ++ k.namespace ++ "/" ++ k.name ++
        " declared more than once") ∧
    ∀ r j, decode? r j = some s → ListsKeys r "collectors" j (s.collectors.map (·.key)) ∧
      ListsKeys r "discoveries" j (s.discoveries.map (·.key)) := by
  refine ⟨validate_eq_ok.trans problem?_eq_none, fun p => validate_eq_error.trans problem?_eq_some, fun k => ?_,
    fun r j => decode?_lists⟩
  simp [Problem.text, toString, String.append_assoc]

def named (home : List (String × Json)) (name : String) : Json := .obj (home ++ [("name", .str name)])

def crowded : Json :=
  let ops := named [("namespace", .str "ops")] "pool"
  .obj [("discoveries", .arr [ops]),
    ("collectors", .arr [named [] "pool", ops, ops, named [("namespace", .str "default")] "pool"])]

theorem validate_exact_crowded : ∃ s, decode? Document.strict crowded = some s ∧
    s.validate = .error (.repeatedCollector ⟨"ops", "pool"⟩) ∧
    s.Has (.repeatedCollector ⟨"ops", "pool"⟩) ∧
    ListsKeys Document.strict "collectors" crowded
      [⟨"default", "pool"⟩, ⟨"ops", "pool"⟩, ⟨"ops", "pool"⟩, ⟨"default", "pool"⟩] := by
  have read : (decode? Document.strict crowded).map (fun s => (s.problem?, s.collectors.map (·.key))) =
      some (some (.repeatedCollector ⟨"ops", "pool"⟩),
        [⟨"default", "pool"⟩, ⟨"ops", "pool"⟩, ⟨"ops", "pool"⟩, ⟨"default", "pool"⟩]) := by
    decide +kernel
  obtain ⟨s, hs, h⟩ := Option.map_eq_some_iff.mp read
  obtain ⟨hp, hk⟩ := Prod.mk.inj h
  have hv : s.validate = .error (.repeatedCollector ⟨"ops", "pool"⟩) := validate_eq_error.mpr hp
  obtain ⟨-, first, -, listed⟩ := validate_exact s
  exact ⟨s, hs, hv, ((first _).mp hv).1, hk ▸ (listed _ _ hs).1⟩

end ScrapeRelay.Settings
