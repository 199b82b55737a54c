import Mathlib.Logic.Function.Iterate
import SlothBox.RateLimit

/-! What the two windows promise. The gateway's holds as long as no request that it
would let pass repeats a recorded member: a repeated member is counted once. The ingest
limiter refuses exactly when its window is full. -/

namespace SlothBox.Proofs
open Library

/-! ### The gateway -/

/-- Each bucket has one rule, whichever routes it stands at. -/
theorem routes_agree {createPerMinute createPerDay readPerMinute : Nat} {first second : RateLimitRule}
    (inside : first ∈ createRules createPerMinute createPerDay ++ readRules readPerMinute ++ cspReportRules)
    (also : second ∈ createRules createPerMinute createPerDay ++ readRules readPerMinute ++ cspReportRules)
    (same : first.bucket = second.bucket) : first = second := by
  simp only [createRules, readRules, cspReportRules, List.cons_append, List.nil_append, List.mem_cons,
    List.not_mem_nil, or_false] at inside also
  rcases inside with rfl | rfl | rfl | rfl <;> rcases also with rfl | rfl | rfl | rfl <;> simp at same ⊢

theorem key_inj {identity : String} {first second : RateLimitRule} (same : first.key identity = second.key identity) :
    first.bucket = second.bucket := by
  simpa [RateLimitRule.key, String.append_assoc] using same

section Gateway
variable {identity : String} {rule : RateLimitRule}

/-- Every member that lies in the window of a later request is found in it. -/
def Keeps (rule : RateLimitRule) (slot : Slot String) (nowMs : Nat) (recorded : List (String × Int)) : Prop :=
  ∀ later : Nat, nowMs ≤ later → ∀ entry ∈ recorded, (later : Int) - rule.windowMs < entry.2 →
    ∃ score, entry.2 ≤ score ∧ (entry.1, score) ∈ (windowOf slot later rule).set.entries

theorem Keeps.later {slot : Slot String} {first second : Nat} {recorded : List (String × Int)}
    (keeps : Keeps rule slot first recorded) (later : first ≤ second) : Keeps rule slot second recorded :=
  fun time after => keeps time (Nat.le_trans later after)

theorem Keeps.subset {slot : Slot String} {nowMs : Nat} {recorded fewer : List (String × Int)}
    (keeps : Keeps rule slot nowMs recorded) (subset : fewer ⊆ recorded) : Keeps rule slot nowMs fewer :=
  fun later after entry inside => keeps later after entry (subset inside)

/-- A pipeline records its member and loses none that still counts, although the key
expires: what is found at its time is found until the time to live has passed. -/
theorem pipeline_keeps {slot : Slot String} {nowMs : Nat} {member : String} {recorded : List (String × Int)}
    (keeps : Keeps rule slot nowMs recorded) (past : ∀ entry ∈ recorded, entry.2 ≤ nowMs) :
    Keeps rule (pipeline slot nowMs rule member).1 nowMs (recorded ++ [(member, (nowMs : Int))]) := by
  intro later after entry inside within
  have bound : entry.2 ≤ nowMs := by
    rcases List.mem_append.mp inside with old | new
    · exact past entry old
    · rw [List.mem_singleton.mp new]
  -- first as ZADD leaves it
  have added : ∃ score, entry.2 ≤ score ∧
      (entry.1, score) ∈ ((windowOf slot nowMs rule).add member nowMs).set.entries := by
    rcases List.mem_append.mp inside with old | new
    · obtain ⟨score, least, found⟩ := keeps nowMs (Nat.le_refl _) entry old (by omega)
      rcases SortedSet.mem_add found with ⟨-, rescored⟩ | kept
      · exact ⟨nowMs, bound, rescored⟩
      · exact ⟨score, least, kept⟩
    · rw [List.mem_singleton.mp new]
      exact ⟨nowMs, Int.le_refl _, SortedSet.contains_add_self⟩
  obtain ⟨score, least, found⟩ := added
  have there : (pipeline slot nowMs rule member).1 =
      ⟨((windowOf slot nowMs rule).add member nowMs).set, some (nowMs + rule.windowMs)⟩ := by
    apply if_neg
    intro gone
    rcases gone with short | none
    · omega
    · rw [List.eq_nil_of_length_eq_zero none] at found
      cases found
  refine ⟨score, least, ?_⟩
  rw [windowOf, Slot.entries_trim, there, Slot.live_of_not_expired, List.mem_filter]
  · refine ⟨found, ?_⟩
    simp only [Bool.not_eq_true', decide_eq_false_iff_not, not_and]
    omega
  · intro last limited
    cases limited
    omega

theorem iterate_keeps {slot : Slot String} {nowMs : Nat} {member : String} {recorded : List (String × Int)} (n : Nat)
    (keeps : Keeps rule slot nowMs recorded) (past : ∀ entry ∈ recorded, entry.2 ≤ nowMs) :
    Keeps rule ((fun slot => (pipeline slot nowMs rule member).1)^[n] slot) nowMs recorded := by
  induction n generalizing slot with
  | zero => exact keeps
  | succ n ih => exact ih ((pipeline_keeps keeps past).subset (List.subset_append_left _ _))

/-- A request behind the others: the clock has not gone back since the last, Valkey answers
every rule, and no other rule of the request counts in the bucket. -/
structure Sequential (rule : RateLimitRule) (limiter : Limiter) (arrival : Arrival) : Prop where
  later : limiter.nowMs ≤ arrival.nowMs
  replied : ∀ other ∈ arrival.rules, arrival.exec other = .replied
  bucket : ∀ other ∈ arrival.rules, other.bucket = rule.bucket → other = rule

/-- The rule's window already has an entry under the request's member, and the rule lets
the request pass. -/
def Repeats (identity : String) (rule : RateLimitRule) (limiter : Limiter) (arrival : Arrival) : Prop :=
  let window := (windowOf (limiter.valkey (rule.key identity)) arrival.nowMs rule).set
  rule ∈ arrival.rules ∧ window.contains arrival.member ∧ window.card ≤ rule.max

instance (limiter : Limiter) (arrival : Arrival) : Decidable (Repeats identity rule limiter arrival) :=
  inferInstanceAs (Decidable (_ ∧ _ ∧ _))

/-- The rule's key after a request has gone through its rules: its pipeline has run any
number of times, at least once if the request was admitted. -/
theorem evaluate_slot {arrival : Arrival} {rules : List RateLimitRule} (valkey : Valkey)
    (replied : ∀ other ∈ rules, arrival.exec other = .replied)
    (bucket : ∀ other ∈ rules, other.bucket = rule.bucket → other = rule) :
    ∃ n, (evaluate identity arrival valkey rules).1 (rule.key identity) =
        (fun slot => (pipeline slot arrival.nowMs rule arrival.member).1)^[n] (valkey (rule.key identity)) ∧
      ((evaluate identity arrival valkey rules).2 = none → rule ∈ rules →
        0 < n ∧ (pipeline (valkey (rule.key identity)) arrival.nowMs rule arrival.member).2 ≤ rule.max) := by
  induction rules generalizing valkey with
  | nil => exact ⟨0, rfl, fun _ inside => (nomatch inside)⟩
  | cons other rest ih =>
    have onwards := fun valkey => ih valkey (fun other inside => replied other (List.mem_cons_of_mem _ inside))
      (fun other inside => bucket other (List.mem_cons_of_mem _ inside))
    rw [evaluate]
    simp only [replied other List.mem_cons_self]
    by_cases same : other = rule
    · subst same
      split
      next tripped => exact ⟨1, Valkey.put_self _ _ _, fun none => (nomatch none)⟩
      next room =>
        obtain ⟨n, reached, -⟩ := onwards
          (valkey.put (other.key identity) (pipeline (valkey (other.key identity)) arrival.nowMs other arrival.member).1)
        refine ⟨n + 1, ?_, fun _ _ => ⟨Nat.succ_pos _, Nat.le_of_not_lt room⟩⟩
        rw [reached, Function.iterate_succ_apply, Valkey.put_self]
    · have apart : rule.key identity ≠ other.key identity := fun equal =>
        same (bucket other List.mem_cons_self (key_inj equal).symm)
      split
      next tripped => exact ⟨0, Valkey.put_of_ne _ _ apart, fun none => (nomatch none)⟩
      next room =>
        obtain ⟨n, reached, passed⟩ := onwards
          (valkey.put (other.key identity) (pipeline (valkey (other.key identity)) arrival.nowMs other arrival.member).1)
        rw [Valkey.put_of_ne _ _ apart] at reached passed
        refine ⟨n, reached, fun none inside => passed none ?_⟩
        rcases List.mem_cons.mp inside with here | behind
        · exact absurd here.symm same
        · exact behind

/-- The admitted requests that the rule applies to. -/
def through (limiter : Limiter) (rule : RateLimitRule) : List Arrival :=
  limiter.admitted.filter (rule ∈ ·.rules)

def recent (rule : RateLimitRule) (nowMs : Nat) (arrivals : List Arrival) : List Arrival :=
  arrivals.filter fun arrival => (nowMs : Int) - rule.windowMs < arrival.nowMs

/-- Between two requests. The recent ones have entries of their own. -/
structure Counted (identity : String) (rule : RateLimitRule) (limiter : Limiter) : Prop where
  past : ∀ arrival ∈ through limiter rule, arrival.nowMs ≤ limiter.nowMs
  keeps : Keeps rule (limiter.valkey (rule.key identity)) limiter.nowMs
    ((through limiter rule).map fun arrival => (arrival.member, (arrival.nowMs : Int)))
  distinct : ((recent rule limiter.nowMs (through limiter rule)).map Arrival.member).Nodup
  paced : Paced rule.windowMs rule.max ((through limiter rule).map fun arrival => (arrival.nowMs : Int))

/-- A request of which the rule keeps no account only moves the clock. -/
theorem Counted.idle {limiter : Limiter} {valkey : Valkey} {arrival : Arrival} {admitted : List Arrival} {n : Nat}
    (counted : Counted identity rule limiter) (later : limiter.nowMs ≤ arrival.nowMs)
    (reached : valkey (rule.key identity) =
      (fun slot => (pipeline slot arrival.nowMs rule arrival.member).1)^[n] (limiter.valkey (rule.key identity)))
    (same : admitted.filter (rule ∈ ·.rules) = through limiter rule) :
    Counted identity rule ⟨valkey, arrival.nowMs, admitted⟩ := by
  have sameThrough : through ⟨valkey, arrival.nowMs, admitted⟩ rule = through limiter rule := same
  refine ⟨?_, ?_, ?_, ?_⟩ <;> rw [sameThrough]
  · exact fun other inside => Nat.le_trans (counted.past other inside) later
  · simp only [reached]
    apply iterate_keeps n (counted.keeps.later later)
    intro entry inside
    obtain ⟨other, admitted, rfl⟩ := List.mem_map.mp inside
    exact Int.ofNat_le.mpr (Nat.le_trans (counted.past other admitted) later)
  · refine counted.distinct.sublist (List.Sublist.map _ ?_)
    apply List.monotone_filter_right _
    intro other within
    simp only [decide_eq_true_eq] at within ⊢
    omega
  · exact counted.paced

/-- A request that the rule lets pass is one of at most `max` in its window. -/
theorem Counted.admit {limiter : Limiter} {valkey : Valkey} {arrival : Arrival} {admitted : List Arrival} {n : Nat}
    (counted : Counted identity rule limiter) (later : limiter.nowMs ≤ arrival.nowMs)
    (single : ¬Repeats identity rule limiter arrival) (applies : rule ∈ arrival.rules)
    (reached : valkey (rule.key identity) =
      (fun slot => (pipeline slot arrival.nowMs rule arrival.member).1)^[n] (limiter.valkey (rule.key identity)))
    (ran : 0 < n)
    (passed : (pipeline (limiter.valkey (rule.key identity)) arrival.nowMs rule arrival.member).2 ≤ rule.max)
    (same : admitted.filter (rule ∈ ·.rules) = through limiter rule ++ [arrival]) :
    Counted identity rule ⟨valkey, arrival.nowMs, admitted⟩ := by
  have sameThrough : through ⟨valkey, arrival.nowMs, admitted⟩ rule = through limiter rule ++ [arrival] := same
  have keeps := counted.keeps.later later
  have past : ∀ entry ∈ (through limiter rule).map fun arrival => (arrival.member, (arrival.nowMs : Int)),
      entry.2 ≤ arrival.nowMs := by
    intro entry inside
    obtain ⟨other, admitted, rfl⟩ := List.mem_map.mp inside
    exact Int.ofNat_le.mpr (Nat.le_trans (counted.past other admitted) later)
  have distinct : ((recent rule arrival.nowMs (through limiter rule)).map Arrival.member).Nodup := by
    refine counted.distinct.sublist (List.Sublist.map _ (List.monotone_filter_right _ fun other within => ?_))
    simp only [decide_eq_true_eq] at within ⊢
    omega
  -- the entries of the recent requests are in the window, the new one is not
  have found : ∀ member ∈ (recent rule arrival.nowMs (through limiter rule)).map Arrival.member,
      (windowOf (limiter.valkey (rule.key identity)) arrival.nowMs rule).set.contains member := by
    intro member inside
    obtain ⟨other, within, rfl⟩ := List.mem_map.mp inside
    obtain ⟨admitted, within⟩ := List.mem_filter.mp within
    obtain ⟨score, -, entry⟩ := keeps arrival.nowMs (Nat.le_refl _) _ (List.mem_map_of_mem admitted)
      (by simpa using within)
    exact SortedSet.contains_iff.mpr ⟨score, entry⟩
  have room : (windowOf (limiter.valkey (rule.key identity)) arrival.nowMs rule).set.contains arrival.member = false ∧
      (windowOf (limiter.valkey (rule.key identity)) arrival.nowMs rule).set.card < rule.max := by
    have count : ((windowOf (limiter.valkey (rule.key identity)) arrival.nowMs rule).set.add arrival.member
      arrival.nowMs).card ≤ rule.max := passed
    rw [SortedSet.card_add] at count
    split at count
    next present => exact absurd ⟨applies, present, count⟩ single
    next absent => exact ⟨Bool.eq_false_iff.mpr absent, count⟩
  refine ⟨?_, ?_, ?_, ?_⟩ <;> rw [sameThrough]
  · intro other inside
    rcases List.mem_append.mp inside with old | new
    · exact Nat.le_trans (counted.past other old) later
    · rw [List.mem_singleton.mp new]
  · obtain ⟨m, rfl⟩ : ∃ m, n = m + 1 := ⟨n - 1, by omega⟩
    simp only [reached, Function.iterate_succ_apply, List.map_append, List.map_singleton]
    apply iterate_keeps m (pipeline_keeps keeps past)
    intro entry inside
    rcases List.mem_append.mp inside with old | new
    · exact past entry old
    · rw [List.mem_singleton.mp new]
  · have apart : ((recent rule arrival.nowMs (through limiter rule) ++ [arrival]).map Arrival.member).Nodup := by
      rw [List.map_append, List.map_singleton, List.nodup_append]
      refine ⟨distinct, List.nodup_singleton _, fun first inside second also equal => ?_⟩
      rw [List.mem_singleton.mp also] at equal
      exact absurd (equal ▸ found first inside) (by simp [room.1])
    refine apart.sublist (List.Sublist.map _ ?_)
    rw [recent, List.filter_append]
    exact List.Sublist.append (List.Sublist.refl _) List.filter_sublist
  · rw [List.map_append, List.map_singleton]
    refine .snoc counted.paced (fun earlier inside => ?_) ?_
    · obtain ⟨other, admitted, rfl⟩ := List.mem_map.mp inside
      exact Int.ofNat_le.mpr (Nat.le_trans (counted.past other admitted) later)
    · have bound := SortedSet.length_le_card distinct found
      rw [List.length_map] at bound
      rw [List.filter_map, List.length_map]
      exact Nat.lt_of_le_of_lt bound room.2

theorem counted_step {limiter next : Limiter} {arrival : Arrival} (counted : Counted identity rule limiter)
    (sequential : Sequential rule limiter arrival) (single : ¬Repeats identity rule limiter arrival)
    (taken : (gatewayLimiter identity).step limiter arrival = some next) : Counted identity rule next := by
  obtain ⟨n, reached, passed⟩ := @evaluate_slot identity _ _ _ limiter.valkey sequential.replied sequential.bucket
  simp only [gatewayLimiter, rateLimit] at taken
  cases verdict : evaluate identity arrival limiter.valkey arrival.rules with
  | mk valkey tripped =>
    rw [verdict] at taken reached passed
    cases tripped with
    | some tripped =>
      cases taken
      exact counted.idle sequential.later reached rfl
    | none =>
      cases taken
      by_cases applies : rule ∈ arrival.rules
      · obtain ⟨ran, count⟩ := passed rfl applies
        apply counted.admit sequential.later single applies reached ran count
        rw [List.filter_append, List.filter_cons_of_pos (by simpa using applies)]
        rfl
      · apply counted.idle sequential.later reached
        rw [List.filter_append, List.filter_cons_of_neg (by simpa using applies), List.filter_nil, List.append_nil]
        rfl

end Gateway

instance (rule : RateLimitRule) (limiter : Limiter) (arrival : Arrival) : Decidable (Sequential rule limiter arrival) :=
  decidable_of_iff (limiter.nowMs ≤ arrival.nowMs ∧ (∀ other ∈ arrival.rules, arrival.exec other = .replied) ∧
      ∀ other ∈ arrival.rules, other.bucket = rule.bucket → other = rule)
    ⟨fun all => ⟨all.1, all.2.1, all.2.2⟩, fun sequential => ⟨sequential.later, sequential.replied, sequential.bucket⟩⟩

def sampleRule : RateLimitRule := ⟨"read_minute", 60000, 1⟩

def sampleArrival (nowMs : Nat) (id : String) : Arrival :=
  ⟨nowMs, some id, "8c1f0d6e-5b7a-4c55-9d3e-0f6a2b9c4d11", [sampleRule], fun _ => .replied⟩

section Ingest
variable {bucket : String} {limit windowSeconds : Int}

/-- The script answers, time does not run backwards, and members are distinct. -/
structure Ordered (state : Bucket) (acquire : Acquire) : Prop where
  later : ∀ call ∈ state.calls, call.1.nowMs ≤ acquire.nowMs
  fresh : ∀ call ∈ state.calls, call.1.memberId ≠ acquire.memberId
  answered : acquire.outage = none

def admittedCalls (calls : List (Acquire × Bool)) : List Acquire := (calls.filter (·.2)).map Prod.fst

/-- How many calls were admitted in the window that closes at `t`. -/
def admittedWithin (windowSeconds : Int) (calls : List (Acquire × Bool)) (t : Int) : Nat :=
  ((admittedCalls calls).filter fun acquire => t - windowSeconds * 1000 < acquire.nowMs ∧ acquire.nowMs ≤ t).length

theorem admittedCalls_concat (calls : List (Acquire × Bool)) (acquire : Acquire) (admitted : Bool) :
    admittedCalls (calls ++ [(acquire, admitted)]) =
      if admitted then admittedCalls calls ++ [acquire] else admittedCalls calls := by
  cases admitted <;> simp [admittedCalls, List.filter_append]

theorem mem_admittedCalls {calls : List (Acquire × Bool)} {acquire : Acquire} :
    acquire ∈ admittedCalls calls ↔ (acquire, true) ∈ calls := by
  simp [admittedCalls]

/-- The key holds the admitted calls, as far as any later execution can tell. -/
structure Recorded (bucket : String) (limit windowSeconds : Int) (state : Bucket) : Prop where
  found : ∀ now, (∀ call ∈ state.calls, call.1.nowMs ≤ now) →
    (((state.valkey ("ratelimit:" ++ bucket)).live now).trim (· ≤ now - windowSeconds * 1000)).set.entries =
      ((admittedCalls state.calls).filter fun acquire => now - windowSeconds * 1000 < acquire.nowMs).map
        fun acquire => (acquire.memberId, acquire.nowMs)
  paced : Paced (windowSeconds * 1000) limit.toNat ((admittedCalls state.calls).map Acquire.nowMs)
  exact : ∀ before acquire admitted after, state.calls = before ++ (acquire, admitted) :: after →
    (admitted = false ↔ (admittedWithin windowSeconds before acquire.nowMs : Int) = limit)

theorem Recorded.bounded {state : Bucket} (positive : 1 ≤ limit) (recorded : Recorded bucket limit windowSeconds state)
    (t : Int) : (admittedWithin windowSeconds state.calls t : Int) ≤ limit := by
  have bounded := recorded.paced.bounded t
  rw [List.filter_map, List.length_map] at bounded
  have : admittedWithin windowSeconds state.calls t ≤ limit.toNat := bounded
  omega

/-- Behind the last call, the window that closes now is what the script counts. -/
theorem Recorded.count {state : Bucket} {now : Int} (recorded : Recorded bucket limit windowSeconds state)
    (later : ∀ call ∈ state.calls, call.1.nowMs ≤ now) :
    (((state.valkey ("ratelimit:" ++ bucket)).live now).trim (· ≤ now - windowSeconds * 1000)).set.card =
      admittedWithin windowSeconds state.calls now := by
  rw [SortedSet.card, recorded.found now later, List.length_map, admittedWithin]
  congr 1
  apply List.filter_congr
  intro acquire inside
  have past : acquire.nowMs ≤ now := later _ (mem_admittedCalls.mp inside)
  simp [past]

theorem exact_concat {calls : List (Acquire × Bool)} {acquire : Acquire} {admitted : Bool}
    (exact : ∀ before acquire admitted after, calls = before ++ (acquire, admitted) :: after →
      (admitted = false ↔ (admittedWithin windowSeconds before acquire.nowMs : Int) = limit))
    (last : admitted = false ↔ (admittedWithin windowSeconds calls acquire.nowMs : Int) = limit)
    (before : List (Acquire × Bool)) (other : Acquire) (verdict : Bool) (after : List (Acquire × Bool))
    (shape : calls ++ [(acquire, admitted)] = before ++ (other, verdict) :: after) :
    verdict = false ↔ (admittedWithin windowSeconds before other.nowMs : Int) = limit := by
  rcases List.eq_nil_or_concat after with rfl | ⟨front, final, rfl⟩
  · obtain ⟨rfl, same⟩ := List.append_inj' shape rfl
    cases same
    exact last
  · rw [List.concat_eq_append, ← List.cons_append, ← List.append_assoc] at shape
    obtain ⟨same, -⟩ := List.append_inj' shape rfl
    exact exact before other verdict front same

/-- A refusal leaves the key as any later execution would find it anyway. -/
theorem Recorded.refuse {state : Bucket} {acquire : Acquire} (positive : 1 ≤ limit)
    (recorded : Recorded bucket limit windowSeconds state)
    (full : limit ≤ admittedWithin windowSeconds state.calls acquire.nowMs) :
    Recorded bucket limit windowSeconds
      ⟨state.valkey.put ("ratelimit:" ++ bucket) (((state.valkey ("ratelimit:" ++ bucket)).live acquire.nowMs).trim
        (· ≤ acquire.nowMs - windowSeconds * 1000)), state.calls ++ [(acquire, false)]⟩ where
  found now latest := by
    have later : acquire.nowMs ≤ now := latest _ (List.mem_append_right _ List.mem_cons_self)
    dsimp only
    rw [admittedCalls_concat, if_neg (by decide), Valkey.put_self, Slot.entries_trim_later later]
    exact recorded.found now fun call inside => latest call (List.mem_append_left _ inside)
  paced := by
    rw [admittedCalls_concat, if_neg (by decide)]
    exact recorded.paced
  exact := exact_concat recorded.exact
    (iff_of_true rfl (Int.le_antisymm (recorded.bounded positive _) full))

/-- An admission adds the call, and the key outlives the window. -/
theorem Recorded.admit {state : Bucket} {acquire : Acquire} (window : 1 ≤ windowSeconds)
    (recorded : Recorded bucket limit windowSeconds state) (ordered : Ordered state acquire)
    (room : (admittedWithin windowSeconds state.calls acquire.nowMs : Int) < limit) :
    Recorded bucket limit windowSeconds
      ⟨state.valkey.put ("ratelimit:" ++ bucket)
        (((((state.valkey ("ratelimit:" ++ bucket)).live acquire.nowMs).trim
          (· ≤ acquire.nowMs - windowSeconds * 1000)).add acquire.memberId acquire.nowMs).expire acquire.nowMs
            ((windowSeconds + 5) * 1000)), state.calls ++ [(acquire, true)]⟩ where
  found now latest := by
    have later : acquire.nowMs ≤ now := latest _ (List.mem_append_right _ List.mem_cons_self)
    have held := recorded.found acquire.nowMs ordered.later
    have absent : ¬(((state.valkey ("ratelimit:" ++ bucket)).live acquire.nowMs).trim
        (· ≤ acquire.nowMs - windowSeconds * 1000)).set.contains acquire.memberId := by
      intro present
      obtain ⟨score, entry⟩ := SortedSet.contains_iff.mp present
      rw [held] at entry
      obtain ⟨other, within, same⟩ := List.mem_map.mp entry
      exact ordered.fresh _ (mem_admittedCalls.mp (List.mem_filter.mp within).1) (Prod.mk.inj same).1
    have entries := (SortedSet.entries_add_of_absent absent).trans
      (congrArg (· ++ [(acquire.memberId, acquire.nowMs)]) held)
    dsimp only
    rw [admittedCalls_concat, if_pos rfl, Valkey.put_self, Slot.expire, if_neg, Slot.entries_trim]
    · by_cases expired : acquire.nowMs + (windowSeconds + 5) * 1000 < now
      · -- nothing admitted so far lies in a window that closes after the key has expired
        rw [Slot.live_of_expired rfl expired, Slot.entries_vacant, List.filter_nil, eq_comm, List.map_eq_nil_iff,
          List.filter_eq_nil_iff]
        intro other inside
        have past : other.nowMs ≤ acquire.nowMs := by
          rcases List.mem_append.mp inside with old | new
          · exact ordered.later _ (mem_admittedCalls.mp old)
          · rw [List.mem_singleton.mp new]
        simp only [decide_eq_true_eq]
        omega
      · rw [Slot.live_of_not_expired (by rintro last ⟨⟩; omega), Slot.add, entries, List.filter_append, List.filter_append,
          List.map_append, List.filter_map, List.filter_filter]
        congr 1
        · congr 1
          apply List.filter_congr
          intro other _
          simp only [Function.comp, Bool.and_eq_decide, decide_eq_decide, Bool.not_eq_true', decide_eq_false_iff_not,
            decide_eq_true_eq]
          omega
        · by_cases inside : now - windowSeconds * 1000 < acquire.nowMs
          · rw [List.filter_cons_of_pos (by simpa using inside), List.filter_cons_of_pos (by simpa using inside)]
            rfl
          · rw [List.filter_cons_of_neg (by simpa using inside), List.filter_cons_of_neg (by simpa using inside)]
            rfl
    · rintro (short | none)
      · omega
      · simp only [Slot.add, SortedSet.card, entries, List.length_append, List.length_singleton] at none
        omega
  paced := by
    rw [admittedCalls_concat, if_pos rfl, List.map_append, List.map_singleton]
    refine .snoc recorded.paced (fun earlier inside => ?_) ?_
    · obtain ⟨other, admitted, rfl⟩ := List.mem_map.mp inside
      exact ordered.later _ (mem_admittedCalls.mp admitted)
    · have count := recorded.count ordered.later
      rw [SortedSet.card, recorded.found acquire.nowMs ordered.later, List.length_map] at count
      rw [List.filter_map, List.length_map]
      have : ((admittedCalls state.calls).filter fun other => acquire.nowMs - windowSeconds * 1000 < other.nowMs).length <
          limit.toNat := by omega
      exact this
  exact := exact_concat recorded.exact (iff_of_false (by decide) (Int.ne_of_lt room))

theorem recorded_step {state next : Bucket} {acquire : Acquire} (positive : 1 ≤ limit) (window : 1 ≤ windowSeconds)
    (recorded : Recorded bucket limit windowSeconds state) (ordered : Ordered state acquire)
    (taken : (ingestLimiter bucket limit windowSeconds).step state acquire = some next) :
    Recorded bucket limit windowSeconds next := by
  have enabled : ¬(limit ≤ 0 ∨ windowSeconds ≤ 0) := by omega
  have count := recorded.count ordered.later
  simp only [ingestLimiter, tryAcquireAsync, if_neg enabled, ordered.answered, acquireScript] at taken
  cases taken
  split
  next full => exact recorded.refuse positive (count ▸ full)
  next room => exact recorded.admit window ordered (count ▸ Int.not_le.mp room)

/-- Exactness: no window holds more than `limit` admitted calls, and a call is refused
if and only if the window that it closes holds exactly `limit`. -/
theorem ingest_exact {acquires : List Acquire} {final : Bucket} (positive : 1 ≤ limit) (window : 1 ≤ windowSeconds)
    (run : (ingestLimiter bucket limit windowSeconds).Run Ordered ⟨fun _ => .vacant, []⟩ acquires final) :
    (∀ t, (admittedWithin windowSeconds final.calls t : Int) ≤ limit) ∧
      ∀ before acquire admitted after, final.calls = before ++ (acquire, admitted) :: after →
        (admitted = false ↔ (admittedWithin windowSeconds before acquire.nowMs : Int) = limit) := by
  have recorded := run.invariant (Recorded bucket limit windowSeconds)
    ⟨fun _ _ => rfl, .nil, fun _ _ _ _ shape => by simp at shape⟩
    fun state acquire next recorded ordered taken => recorded_step positive window recorded ordered taken
  exact ⟨recorded.bounded positive, recorded.exact⟩

end Ingest

instance (state : Bucket) (acquire : Acquire) : Decidable (Ordered state acquire) :=
  decidable_of_iff ((∀ call ∈ state.calls, call.1.nowMs ≤ acquire.nowMs) ∧
      (∀ call ∈ state.calls, call.1.memberId ≠ acquire.memberId) ∧ acquire.outage = none)
    ⟨fun all => ⟨all.1, all.2.1, all.2.2⟩, fun ordered => ⟨ordered.later, ordered.fresh, ordered.answered⟩⟩

/-- Two calls a second: the third is refused, and the window is free again one second
after the first. -/
theorem ingest_exact_sample :
    ∃ final, (ingestLimiter "upload:203.0.113.7" 2 1).Run Ordered ⟨fun _ => .vacant, []⟩
        [⟨500, "a1", none⟩, ⟨700, "b2", none⟩, ⟨1499, "c3", none⟩, ⟨1500, "d4", none⟩] final ∧
      final.calls.map Prod.snd = [true, true, false, true] ∧ (admittedWithin 1 final.calls 1500 : Int) ≤ 2 := by
  have replayed : ((ingestLimiter "upload:203.0.113.7" 2 1).replay
      (fun state acquire => decide (Ordered state acquire)) ⟨fun _ => .vacant, []⟩
      [⟨500, "a1", none⟩, ⟨700, "b2", none⟩, ⟨1499, "c3", none⟩, ⟨1500, "d4", none⟩]).any
      (fun final => final.calls.map Prod.snd == [true, true, false, true]) = true := by decide +kernel
  obtain ⟨final, run, verdicts⟩ := System.any_replay replayed
  have run := run.mono fun state acquire allowed => of_decide_eq_true allowed
  exact ⟨final, run, beq_iff_eq.mp verdicts, (ingest_exact (by decide) (by decide) run).1 1500⟩

end SlothBox.Proofs
