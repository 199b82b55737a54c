import SlothBox.Progress

/-! The counter of open progress sockets. It is exact as long as no look-up finds its
share with a count at hand that others have moved meanwhile, and the first that does
puts it wrong. -/

namespace SlothBox.Proofs
open Library ProgressWs

section Counter
variable {maxConnectionsPerIp : Nat}

/-- A socket of an address that was counted and is still open. -/
def standing (ip : String) (socket : ProgressSocket) : Bool := socket.ip = ip && socket.counted && !socket.closed

def standingSockets (state : ProgressWs) (ip : String) : Nat := state.sockets.countP (standing ip)

/-- What the counter and the cap promise. -/
structure ExactCount (maxConnectionsPerIp : Nat) (state : ProgressWs) : Prop where
  entry : ∀ ip, state.currentForIp ip = standingSockets state ip
  capped : ∀ ip, standingSockets state ip ≤ maxConnectionsPerIp
  absent : ∀ ip, (∀ socket ∈ state.sockets, socket.ip = ip → socket.closed) → state.wsConnectionsByIp ip = none

/-- The count that an upgrade has kept for `onOpen`. -/
def readCount : ProgressHandlers → Option Nat
  | .refuse .. => none
  | .serve currentForIp => some currentForIp

/-- The look-up finds its share, and the count that `onOpen` writes is not what the
socket makes of the entry: an open socket whose entry is no longer what its upgrade has
read, or a closed one whose entry is not what it adds up to without it. -/
def Stale (state : ProgressWs) : ProgressEvent → Prop
  | .lookedUp index .found => ∃ socket ∈ state.sockets[index]?, ∃ currentForIp ∈ readCount socket.handlers,
      state.currentForIp socket.ip ≠ if socket.closed then currentForIp + 1 else currentForIp
  | .lookedUp _ .notFound | .lookedUp _ .failed | .upgrade .. | .opened _ | .closed _ => False

instance (state : ProgressWs) : ∀ event, Decidable (Stale state event)
  | .lookedUp index .found => inferInstanceAs (Decidable (∃ socket ∈ state.sockets[index]?,
      ∃ currentForIp ∈ readCount socket.handlers,
        state.currentForIp socket.ip ≠ if socket.closed then currentForIp + 1 else currentForIp))
  | .lookedUp _ .notFound | .lookedUp _ .failed | .upgrade .. | .opened _ | .closed _ => inferInstanceAs (Decidable False)

/-! ### What a step does -/

/-- What became of the map and of a socket that had its turn. -/
inductive Turn (connections : String → Option Nat) (index : Nat) (socket : ProgressSocket) :
    ProgressEvent → (String → Option Nat) → ProgressSocket → Prop where
  | idle {event moved} (quiet : ∀ other, event ≠ .lookedUp other .found) (counted : moved.counted = socket.counted)
      (closed : moved.closed = socket.closed) (later : socket.onOpen = .pending ∨ moved.onOpen = .returned) :
      Turn connections index socket event connections moved
  | count {moved} (currentForIp : Nat) (serves : socket.handlers = .serve currentForIp)
      (lookingUp : socket.onOpen = .lookingUp) (counted : moved.counted) (closed : moved.closed = socket.closed)
      (later : moved.onOpen = .returned) :
      Turn connections index socket (.lookedUp index .found) (count connections socket.ip (currentForIp + 1)) moved
  | leave {connections' moved} (stood : socket.closed = false) (closed : moved.closed)
      (counted : moved.counted = socket.counted) (same : moved.onOpen = socket.onOpen)
      (quiet : socket.counted = false → connections' = connections)
      (discount : socket.counted → connections' = Function.update connections socket.ip
        (if (connections socket.ip).getD 1 ≤ 1 then none else some ((connections socket.ip).getD 1 - 1))) :
      Turn connections index socket (.closed index) connections' moved

/-- Apart from upgrades, a step is one socket's turn. -/
theorem progress_cases {state next : ProgressWs} {event : ProgressEvent}
    (taken : step maxConnectionsPerIp state event = some next) :
    (∃ ip shareId, event = .upgrade ip shareId ∧ next.wsConnectionsByIp = state.wsConnectionsByIp ∧
      next.sockets = state.sockets ++
        [{ ip := ip, handlers := upgradeWebSocket maxConnectionsPerIp state ip shareId }]) ∨
    ∃ index socket moved, state.sockets[index]? = some socket ∧ next.sockets = state.sockets.set index moved ∧
      moved.ip = socket.ip ∧ moved.handlers = socket.handlers ∧
      Turn state.wsConnectionsByIp index socket event next.wsConnectionsByIp moved := by
  cases event with
  | upgrade ip shareId =>
    cases taken
    exact .inl ⟨ip, shareId, rfl, rfl, rfl⟩
  | opened index =>
    simp only [step, Option.bind_eq_bind, Option.bind_eq_some_iff] at taken
    obtain ⟨socket, found, moved, opened, done⟩ := taken
    cases done
    refine .inr ⟨index, socket, moved, found, rfl, ?_⟩
    unfold open? at opened
    split at opened
    next pending =>
      split at opened <;> cases opened <;> exact ⟨rfl, rfl, .idle (by simp) rfl rfl (.inl pending)⟩
    next => cases opened
  | lookedUp index result =>
    simp only [step, Option.bind_eq_bind, Option.bind_eq_some_iff] at taken
    obtain ⟨socket, found, ⟨connections, moved⟩, looked, done⟩ := taken
    cases done
    refine .inr ⟨index, socket, moved, found, rfl, ?_⟩
    unfold lookUp? at looked
    split at looked
    next currentForIp lookingUp serves =>
      cases result <;> cases looked
      case found => exact ⟨rfl, rfl, .count currentForIp serves lookingUp rfl rfl rfl⟩
      case notFound => exact ⟨rfl, rfl, .idle (by simp) rfl rfl (.inr rfl)⟩
      case failed => exact ⟨rfl, rfl, .idle (by simp) rfl rfl (.inr rfl)⟩
    next => cases looked
  | closed index =>
    simp only [step, Option.bind_eq_bind, Option.bind_eq_some_iff] at taken
    obtain ⟨socket, found, ⟨connections, moved⟩, left, done⟩ := taken
    cases done
    refine .inr ⟨index, socket, moved, found, rfl, ?_⟩
    unfold close? at left
    split at left
    next standing =>
      cases left
      refine ⟨rfl, rfl, .leave (by simpa using standing.2) rfl rfl rfl ?_ ?_⟩
      · intro quiet
        rw [if_pos (by simp [quiet])]
      · intro counted
        rw [if_neg (by simp [counted])]
        by_cases last : (state.wsConnectionsByIp socket.ip).getD 1 ≤ 1
        · have none : ((state.wsConnectionsByIp socket.ip).getD 1 : Int) - 1 ≤ 0 := by omega
          rw [if_pos none, if_pos last]
        · have some : ¬((state.wsConnectionsByIp socket.ip).getD 1 : Int) - 1 ≤ 0 := by omega
          have same : (((state.wsConnectionsByIp socket.ip).getD 1 : Int) - 1).toNat =
              (state.wsConnectionsByIp socket.ip).getD 1 - 1 := by omega
          rw [if_neg some, if_neg last, count, same]
    next => cases left

/-! ### Every run -/

/-- What holds whatever the order of steps: an entry is positive and within the cap,
counts at hand are below it, and a socket is counted at the end of `onOpen`. -/
structure CountersFit (maxConnectionsPerIp : Nat) (state : ProgressWs) : Prop where
  entry : ∀ ip n, state.wsConnectionsByIp ip = some n → 0 < n ∧ n ≤ maxConnectionsPerIp
  read : ∀ socket ∈ state.sockets, ∀ n, socket.handlers = .serve n → n < maxConnectionsPerIp
  counted : ∀ socket ∈ state.sockets, socket.counted → socket.onOpen = .returned

theorem countersFit_initial : CountersFit maxConnectionsPerIp .initial where
  entry := fun _ _ found => absurd found (by simp [ProgressWs.initial])
  read := fun _ inside => absurd inside List.not_mem_nil
  counted := fun _ inside => absurd inside List.not_mem_nil

theorem upgrade_read {state : ProgressWs} {ip : String} {shareId : Option String} {n : Nat}
    (serves : upgradeWebSocket maxConnectionsPerIp state ip shareId = .serve n) : n < maxConnectionsPerIp := by
  unfold upgradeWebSocket at serves
  split at serves
  next => cases serves
  next =>
  split at serves
  next => cases serves
  next below =>
    cases serves
    exact Nat.lt_of_not_le below

theorem entry_update {connections : String → Option Nat} {ip : String} {value : Option Nat}
    (entry : ∀ ip n, connections ip = some n → 0 < n ∧ n ≤ maxConnectionsPerIp)
    (fits : ∀ n, value = some n → 0 < n ∧ n ≤ maxConnectionsPerIp) (other : String) (n : Nat)
    (found : Function.update connections ip value other = some n) : 0 < n ∧ n ≤ maxConnectionsPerIp := by
  by_cases same : other = ip
  · subst same
    rw [Function.update_self] at found
    exact fits n found
  · rw [Function.update_of_ne same] at found
    exact entry other n found

theorem Turn.entry {connections connections' : String → Option Nat} {index : Nat} {socket moved : ProgressSocket}
    {event : ProgressEvent} (turn : Turn connections index socket event connections' moved)
    (entry : ∀ ip n, connections ip = some n → 0 < n ∧ n ≤ maxConnectionsPerIp)
    (read : ∀ n, socket.handlers = .serve n → n < maxConnectionsPerIp) (ip : String) (n : Nat)
    (found : connections' ip = some n) : 0 < n ∧ n ≤ maxConnectionsPerIp := by
  cases turn with
  | idle => exact entry ip n found
  | count currentForIp serves =>
    refine entry_update entry (fun n same => ?_) ip n found
    have below := read _ serves
    cases same
    omega
  | leave stood closed counted same quiet discount =>
    cases before : socket.counted with
    | false => exact entry ip n (quiet before ▸ found)
    | true =>
      rw [discount before] at found
      refine entry_update entry (fun n same => ?_) ip n found
      split at same
      next => cases same
      next more =>
        cases own : connections socket.ip with
        | none => simp [own] at more
        | some count =>
          have bound := entry _ _ own
          simp only [own, Option.getD_some, Option.some.injEq] at same more
          omega

theorem Turn.returned {connections connections' : String → Option Nat} {index : Nat} {socket moved : ProgressSocket}
    {event : ProgressEvent} (turn : Turn connections index socket event connections' moved)
    (before : socket.counted → socket.onOpen = .returned) (now : moved.counted) : moved.onOpen = .returned := by
  cases turn with
  | idle quiet counted closed later =>
    rcases later with pending | returned
    · have returned := before (counted ▸ now)
      rw [pending] at returned
      cases returned
    · exact returned
  | count currentForIp serves lookingUp counted closed later => exact later
  | leave stood closed counted same => exact same.trans (before (counted ▸ now))

theorem countersFit_step {state next : ProgressWs} {event : ProgressEvent}
    (kept : CountersFit maxConnectionsPerIp state) (taken : step maxConnectionsPerIp state event = some next) :
    CountersFit maxConnectionsPerIp next := by
  rcases progress_cases taken with ⟨ip, shareId, -, connections, sockets⟩ |
    ⟨index, socket, moved, found, sockets, -, handlers, turn⟩
  · constructor
    case entry => exact connections ▸ kept.entry
    case read =>
      intro socket inside
      rcases List.mem_append.mp (sockets ▸ inside) with old | new
      · exact kept.read socket old
      · rw [List.mem_singleton.mp new]
        exact fun n => upgrade_read
    case counted =>
      intro socket inside
      rcases List.mem_append.mp (sockets ▸ inside) with old | new
      · exact kept.counted socket old
      · rw [List.mem_singleton.mp new]
        exact fun counted => absurd counted Bool.false_ne_true
  · have member := List.mem_of_getElem? found
    constructor
    case entry => exact turn.entry kept.entry (kept.read socket member)
    case read =>
      intro other inside
      rcases mem_set_cases (sockets ▸ inside) with rfl | old
      · exact handlers ▸ kept.read socket member
      · exact kept.read other old
    case counted =>
      intro other inside
      rcases mem_set_cases (sockets ▸ inside) with rfl | old
      · exact turn.returned (kept.counted socket member)
      · exact kept.counted other old

/-! ### The counter -/

theorem standing_append {state next : ProgressWs} {socket : ProgressSocket}
    (sockets : next.sockets = state.sockets ++ [socket]) (fresh : socket.counted = false) (ip : String) :
    standingSockets next ip = standingSockets state ip := by
  rw [standingSockets, sockets, List.countP_append, List.countP_singleton, if_neg (by simp [standing, fresh])]
  rfl

theorem standing_set {state next : ProgressWs} {index : Nat} {socket moved : ProgressSocket}
    (found : state.sockets[index]? = some socket) (sockets : next.sockets = state.sockets.set index moved) (ip : String) :
    standingSockets next ip + (standing ip socket).toNat = standingSockets state ip + (standing ip moved).toNat := by
  rw [standingSockets, sockets]
  exact countP_set_add _ _ found

/-- An exact counter is all that the cap and the absent entries need. -/
theorem exactCount_iff {state : ProgressWs} (kept : CountersFit maxConnectionsPerIp state) :
    ExactCount maxConnectionsPerIp state ↔ ∀ ip, state.currentForIp ip = standingSockets state ip := by
  refine ⟨fun exact => exact.entry, fun exact => ⟨exact, fun ip => ?_, fun ip closed => ?_⟩⟩
  · rw [← exact, currentForIp]
    cases entry : state.wsConnectionsByIp ip with
    | none => exact Nat.zero_le _
    | some n => exact (kept.entry ip n entry).2
  · have none : standingSockets state ip = 0 := by
      apply List.countP_eq_zero.mpr
      intro socket inside stands
      simp only [standing, Bool.and_eq_true, decide_eq_true_eq, Bool.not_eq_true'] at stands
      rw [closed socket inside stands.1.1] at stands
      exact absurd stands.2 (by decide)
    rw [← exact, currentForIp] at none
    cases entry : state.wsConnectionsByIp ip with
    | none => rfl
    | some n =>
      have positive := (kept.entry ip n entry).1
      rw [entry, Option.getD_some] at none
      omega

theorem stale_found {state : ProgressWs} {index currentForIp : Nat} {socket : ProgressSocket}
    (found : state.sockets[index]? = some socket) (serves : socket.handlers = .serve currentForIp) :
    Stale state (.lookedUp index .found) ↔
      state.currentForIp socket.ip ≠ if socket.closed then currentForIp + 1 else currentForIp := by
  constructor
  · rintro ⟨other, found', read, kept, stale⟩
    cases Option.some.inj (found.symm.trans found')
    rw [serves] at kept
    cases kept
    exact stale
  · exact fun stale => ⟨socket, found, currentForIp, serves ▸ rfl, stale⟩

theorem stale_cases {state : ProgressWs} {event : ProgressEvent} (stale : Stale state event) :
    ∃ index, event = .lookedUp index .found := by
  cases event with
  | lookedUp index result =>
    cases result with
    | found => exact ⟨index, rfl⟩
    | notFound | failed => exact stale.elim
  | upgrade | opened | closed => exact stale.elim

/-- What a found share makes of an exact counter. -/
theorem count_exact_iff {state next : ProgressWs} {index currentForIp : Nat} {socket moved : ProgressSocket}
    (exact : ∀ ip, state.currentForIp ip = standingSockets state ip) (found : state.sockets[index]? = some socket)
    (sockets : next.sockets = state.sockets.set index moved) (sameIp : moved.ip = socket.ip)
    (fresh : socket.counted = false) (counted : moved.counted) (closed : moved.closed = socket.closed)
    (connections : next.wsConnectionsByIp = count state.wsConnectionsByIp socket.ip (currentForIp + 1)) :
    (∀ ip, next.currentForIp ip = standingSockets next ip) ↔
      state.currentForIp socket.ip = if socket.closed then currentForIp + 1 else currentForIp := by
  have own : next.currentForIp socket.ip = currentForIp + 1 := by
    rw [ProgressWs.currentForIp, connections, count, Function.update_self, Option.getD_some]
  have stands : standingSockets next socket.ip = standingSockets state socket.ip + (!socket.closed).toNat := by
    have moves := standing_set found sockets socket.ip
    simpa [standing, fresh, counted, closed, sameIp] using moves
  constructor
  · intro exact'
    have now := exact' socket.ip
    rw [own, stands, ← exact] at now
    cases gone : socket.closed with
    | false => simp only [gone, Bool.not_false, Bool.toNat_true, Bool.false_eq_true, ↓reduceIte] at now ⊢; omega
    | true => simp only [gone, Bool.not_true, Bool.toNat_false, ↓reduceIte] at now ⊢; omega
  · intro held ip
    by_cases same : ip = socket.ip
    · rw [same, own, stands, ← exact, held]
      cases socket.closed <;> rfl
    · have others := standing_set found sockets ip
      have apart : ¬socket.ip = ip := fun equal => same equal.symm
      rw [ProgressWs.currentForIp, connections, count, Function.update_of_ne same]
      simp only [standing, sameIp, apart, decide_false, Bool.false_and, Bool.toNat_false, Nat.add_zero] at others
      exact (exact ip).trans others.symm

/-- A counted socket that closes takes exactly its own part out. -/
theorem discount_exact {state next : ProgressWs} {index : Nat} {socket moved : ProgressSocket}
    (exact : ∀ ip, state.currentForIp ip = standingSockets state ip) (found : state.sockets[index]? = some socket)
    (sockets : next.sockets = state.sockets.set index moved) (counted : socket.counted)
    (stood : socket.closed = false) (closed : moved.closed)
    (connections : next.wsConnectionsByIp = Function.update state.wsConnectionsByIp socket.ip
      (if (state.wsConnectionsByIp socket.ip).getD 1 ≤ 1 then none
        else some ((state.wsConnectionsByIp socket.ip).getD 1 - 1))) (ip : String) :
    next.currentForIp ip = standingSockets next ip := by
  have moves := standing_set found sockets ip
  have held := exact ip
  rw [ProgressWs.currentForIp] at held ⊢
  rw [connections]
  by_cases same : ip = socket.ip
  · subst same
    simp only [standing, counted, stood, closed, decide_true, Bool.and_true, Bool.not_false, Bool.toNat_true,
      Bool.not_true, Bool.and_false, Bool.toNat_false, Nat.add_zero] at moves
    rw [Function.update_self]
    cases entry : state.wsConnectionsByIp socket.ip with
    | none =>
      rw [entry, Option.getD_none] at held
      omega
    | some n =>
      rw [entry, Option.getD_some] at held
      rw [Option.getD_some]
      split
      · rw [Option.getD_none]
        omega
      · rw [Option.getD_some]
        omega
  · have apart : ¬socket.ip = ip := fun equal => same equal.symm
    rw [Function.update_of_ne same]
    simp only [standing, closed, apart, decide_false, Bool.false_and, Bool.toNat_false, Nat.add_zero, Bool.not_true,
      Bool.and_false] at moves
    omega

/-- From an exact counter, only a stale look-up leads to an inexact one, and it always does. -/
theorem exact_step {state next : ProgressWs} {event : ProgressEvent} (kept : CountersFit maxConnectionsPerIp state)
    (exact : ∀ ip, state.currentForIp ip = standingSockets state ip)
    (taken : step maxConnectionsPerIp state event = some next) :
    (∀ ip, next.currentForIp ip = standingSockets next ip) ↔ ¬Stale state event := by
  have quiet_iff : (∀ index, event ≠ .lookedUp index .found) →
      (∀ ip, next.currentForIp ip = standingSockets next ip) → ((∀ ip, next.currentForIp ip = standingSockets next ip) ↔ ¬Stale state event) := by
    intro quiet holds
    apply iff_of_true holds
    intro stale
    obtain ⟨index, same⟩ := stale_cases stale
    exact quiet index same
  rcases progress_cases taken with ⟨ip, shareId, upgrade, connections, sockets⟩ |
    ⟨index, socket, moved, found, sockets, sameIp, handlers, turn⟩
  · apply quiet_iff (by simp [upgrade])
    intro other
    rw [standing_append sockets rfl, ProgressWs.currentForIp, connections]
    exact exact other
  · obtain ⟨connections', sockets'⟩ := next
    cases turn with
    | idle quiet counted closed =>
      apply quiet_iff quiet
      intro ip
      have moves := @standing_set state ⟨state.wsConnectionsByIp, sockets'⟩ _ _ _ found sockets ip
      have same : standing ip moved = standing ip socket := by rw [standing, sameIp, counted, closed, ← standing]
      rw [same] at moves
      exact (exact ip).trans (Nat.add_right_cancel moves).symm
    | count currentForIp serves lookingUp counted closed =>
      have fresh : socket.counted = false := by
        apply eq_false_of_ne_true
        intro already
        have returned := kept.counted socket (List.mem_of_getElem? found) already
        rw [lookingUp] at returned
        cases returned
      rw [count_exact_iff exact found sockets sameIp fresh counted closed rfl, stale_found found serves, not_not]
    | leave stood closed counted same quiet discount =>
      apply quiet_iff (by simp)
      intro ip
      cases standing' : socket.counted with
      | true => exact discount_exact exact found sockets standing' stood closed (discount standing') ip
      | false =>
        have moves := @standing_set state ⟨connections', sockets'⟩ _ _ _ found sockets ip
        simp only [standing, counted, standing', Bool.and_false, Bool.false_and, Bool.toNat_false, Nat.add_zero] at moves
        rw [ProgressWs.currentForIp]
        exact (congrArg (fun map => (map ip).getD 0) (quiet standing')).trans ((exact ip).trans moves.symm)

/-- As long as no look-up is stale the counter is exact, and it stays so over the next
step exactly when that is not stale either. -/
theorem counter_exact_iff {events : List ProgressEvent} {state : ProgressWs}
    (run : (progressWs maxConnectionsPerIp).Run (fun state event => ¬Stale state event) .initial events state) :
    ExactCount maxConnectionsPerIp state ∧ ∀ event next, (progressWs maxConnectionsPerIp).step state event = some next →
      (ExactCount maxConnectionsPerIp next ↔ ¬Stale state event) := by
  have held : CountersFit maxConnectionsPerIp state ∧ ∀ ip, state.currentForIp ip = standingSockets state ip := by
    refine run.invariant
      (fun state => CountersFit maxConnectionsPerIp state ∧ ∀ ip, state.currentForIp ip = standingSockets state ip)
      ⟨countersFit_initial, fun ip => rfl⟩ ?_
    intro before event next ⟨kept, exact⟩ timely taken
    exact ⟨countersFit_step kept taken, (exact_step kept exact taken).mpr timely⟩
  refine ⟨(exactCount_iff held.1).mpr held.2, fun event next taken => ?_⟩
  rw [exactCount_iff (countersFit_step held.1 taken)]
  exact exact_step held.1 held.2 taken

end Counter

def sampleIp : String := "203.0.113.7"

/-- One connection is allowed: the second upgrade is refused, both sockets close, and
there is no entry left. -/
theorem counter_exact_iff_sample : ∃ state, (progressWs 1).Run (fun state event => ¬Stale state event) .initial
    [.upgrade sampleIp (some "abcdefghjkmn"), .opened 0, .lookedUp 0 .found, .upgrade sampleIp (some "abcdefghjkmn"),
      .opened 1, .closed 1, .closed 0] state ∧ ExactCount 1 state ∧ state.wsConnectionsByIp sampleIp = none := by
  have replayed : ((progressWs 1).replay (fun state event => decide ¬Stale state event) .initial
      [.upgrade sampleIp (some "abcdefghjkmn"), .opened 0, .lookedUp 0 .found, .upgrade sampleIp (some "abcdefghjkmn"),
        .opened 1, .closed 1, .closed 0]).any (fun state => state.wsConnectionsByIp sampleIp == none) = true := by
    decide +kernel
  obtain ⟨state, run, gone⟩ := System.any_replay replayed
  have run := run.mono fun state event timely => of_decide_eq_true timely
  exact ⟨state, run, (counter_exact_iff run).1, beq_iff_eq.mp gone⟩

/-- Two upgrades read the same count: both sockets stand, past the cap of one, and the
entry knows of one. -/
theorem counter_loses_update : ¬∀ (maxConnectionsPerIp : Nat) (state : ProgressWs),
    (progressWs maxConnectionsPerIp).Reachable (fun _ _ => True) .initial state →
      ExactCount maxConnectionsPerIp state := by
  intro exact
  have replayed : ((progressWs 1).replay (fun _ _ => true) .initial
      [.upgrade sampleIp (some "abcdefghjkmn"), .upgrade sampleIp (some "abcdefghjkmn"), .opened 0, .opened 1,
        .lookedUp 0 .found, .lookedUp 1 .found]).any
      (fun state => state.currentForIp sampleIp == 1 && standingSockets state sampleIp == 2) = true := by
    decide +kernel
  obtain ⟨state, run, passed⟩ := System.any_replay replayed
  obtain ⟨entry, two⟩ := Bool.and_eq_true_iff.mp passed
  have exact := (exact 1 state ⟨_, run.mono fun _ _ _ => trivial⟩).entry sampleIp
  rw [beq_iff_eq.mp entry, beq_iff_eq.mp two] at exact
  cases exact

end SlothBox.Proofs
