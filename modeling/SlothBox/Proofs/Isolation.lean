import SlothBox.Clients
import SlothBox.Library.Isolation
import SlothBox.Proofs.RateLimit

/-! Nobody is refused for what others do. The windows of all addresses and of all shares lie in one
Valkey, but under keys from which bucket and payer can be read back. -/

namespace SlothBox.Proofs
open Library

/-- The keys under which the requests of a payer are counted. -/
def owns (config : ThrottleConfig) : Payer → String → Prop
  | .address ip, key => ∃ route, ∃ rule ∈ config.rules route, key = rule.key ip
  | .bucket name, key => key = "ratelimit:" ++ name

section Isolation
variable {config : ThrottleConfig}

/-- No name of a bucket has a colon. -/
theorem bucket_plain {route : Route} {rule : RateLimitRule} (inside : rule ∈ config.rules route) :
    rule.bucket.toList.all (· ≠ ':') := by
  have named : rule.bucket ∈ ["create_minute", "create_day", "read_minute", "csp_report_minute"] := by
    cases route <;> simp only [ThrottleConfig.rules, createRules, readRules, cspReportRules, List.mem_cons,
      List.not_mem_nil, or_false] at inside
    · rcases inside with rfl | rfl <;> simp
    · simp [inside]
    · simp [inside]
  have plain : ["create_minute", "create_day", "read_minute", "csp_report_minute"].all
      (·.toList.all (· ≠ ':')) = true := by decide
  exact List.all_eq_true.mp plain _ named

/-- The text before the first colon is determined, and so is the rest. -/
theorem colon_inj {first second before after : List Char} (plain : first.all (· ≠ ':')) (also : before.all (· ≠ ':'))
    (same : first ++ ':' :: second = before ++ ':' :: after) : first = before ∧ second = after := by
  induction first generalizing before with
  | nil =>
    cases before with
    | nil => exact ⟨rfl, (List.cons.inj same).2⟩
    | cons head tail =>
      obtain ⟨rfl, -⟩ := List.cons.inj same
      simp at also
  | cons head tail ih =>
    cases before with
    | nil =>
      obtain ⟨rfl, -⟩ := List.cons.inj same
      simp at plain
    | cons other others =>
      obtain ⟨rfl, rest⟩ := List.cons.inj same
      rw [List.all_cons, Bool.and_eq_true] at plain also
      obtain ⟨rfl, rfl⟩ := ih plain.2 also.2 rest
      exact ⟨rfl, rfl⟩

theorem key_toList (rule : RateLimitRule) (ip : String) :
    (rule.key ip).toList = 'r' :: 'l' :: ':' :: (rule.bucket.toList ++ ':' :: ip.toList) := by
  simp [RateLimitRule.key, String.toList_append]

/-- No key is counted for two payers. -/
theorem owns_apart {first second : Payer} {key : String} (one : owns config first key) (two : owns config second key) :
    first = second := by
  cases first with
  | address ip =>
    obtain ⟨route, rule, inside, rfl⟩ := one
    cases second with
    | address other =>
      obtain ⟨route', rule', inside', same⟩ := two
      have same := congrArg String.toList same
      rw [key_toList, key_toList] at same
      have rest := (List.cons.inj (List.cons.inj (List.cons.inj same).2).2).2
      obtain ⟨-, ips⟩ := colon_inj (bucket_plain inside) (bucket_plain inside') rest
      rw [String.toList_inj.mp ips]
    | bucket name =>
      have same := congrArg String.toList two
      rw [key_toList, String.toList_append] at same
      exact nomatch (List.cons.inj (List.cons.inj same).2).1
  | bucket name =>
    cases second with
    | address other =>
      obtain ⟨route, rule, inside, rfl⟩ := two
      have same := congrArg String.toList one
      rw [key_toList, String.toList_append] at same
      exact nomatch (List.cons.inj (List.cons.inj same).2).1
    | bucket other =>
      have same := congrArg String.toList (one.symm.trans two)
      rw [String.toList_append, String.toList_append] at same
      rw [String.toList_inj.mp (List.append_cancel_left same)]

/-! ### What a call reads and writes -/

/-- The rules of a route leave every other key alone. -/
theorem evaluate_frame {identity key : String} {arrival : Arrival} {rules : List RateLimitRule}
    (other : ∀ rule ∈ rules, key ≠ rule.key identity) (valkey : Valkey) :
    (evaluate identity arrival valkey rules).1 key = valkey key := by
  induction rules generalizing valkey with
  | nil => rfl
  | cons rule rest ih =>
    have onwards := ih fun rule inside => other rule (List.mem_cons_of_mem _ inside)
    have here := other rule List.mem_cons_self
    rw [evaluate]
    dsimp only
    split
    · split
      · exact Valkey.put_of_ne _ _ here
      · rw [onwards, Valkey.put_of_ne _ _ here]
    next applied _ =>
      rw [onwards]
      cases applied with
      | true => exact Valkey.put_of_ne _ _ here
      | false => rfl
    next applied _ =>
      cases applied with
      | true => exact Valkey.put_of_ne _ _ here
      | false => rfl

/-- What the rules decide and leave depends on their own keys. -/
theorem evaluate_footprint {identity : String} {arrival : Arrival} {rules : List RateLimitRule} {mine : String → Prop}
    (own : ∀ rule ∈ rules, mine (rule.key identity)) : ∀ {first second : Valkey},
    (∀ key, mine key → first key = second key) →
      (evaluate identity arrival first rules).2 = (evaluate identity arrival second rules).2 ∧
        ∀ key, mine key → (evaluate identity arrival first rules).1 key = (evaluate identity arrival second rules).1 key := by
  induction rules with
  | nil => exact fun agrees => ⟨rfl, agrees⟩
  | cons rule rest ih =>
    intro first second agrees
    have onwards := @ih fun rule inside => own rule (List.mem_cons_of_mem _ inside)
    have here := agrees _ (own rule List.mem_cons_self)
    have written : ∀ slot key, mine key → first.put (rule.key identity) slot key = second.put (rule.key identity) slot key := by
      intro slot key owned
      unfold Valkey.put
      split
      · rfl
      · exact agrees key owned
    rw [evaluate, evaluate, here]
    dsimp only
    split
    · split
      · exact ⟨rfl, written _⟩
      · exact onwards (written _)
    next applied _ =>
      cases applied with
      | true => exact onwards (written _)
      | false => exact onwards agrees
    next applied _ =>
      cases applied with
      | true => exact ⟨rfl, written _⟩
      | false => exact ⟨rfl, agrees⟩

theorem acquire_frame {bucket key : String} {limit windowSeconds : Int} {acquire : Acquire}
    (other : key ≠ "ratelimit:" ++ bucket) (valkey : Valkey) :
    (tryAcquireAsync valkey bucket limit windowSeconds acquire).1 key = valkey key := by
  unfold tryAcquireAsync
  split
  · rfl
  · dsimp only
    split
    · exact Valkey.put_of_ne _ _ other
    next applied _ =>
      cases applied with
      | true => exact Valkey.put_of_ne _ _ other
      | false => rfl

theorem acquire_footprint {bucket : String} {limit windowSeconds : Int} {acquire : Acquire} {first second : Valkey}
    (agrees : first ("ratelimit:" ++ bucket) = second ("ratelimit:" ++ bucket)) :
    (tryAcquireAsync first bucket limit windowSeconds acquire).2 =
        (tryAcquireAsync second bucket limit windowSeconds acquire).2 ∧
      (tryAcquireAsync first bucket limit windowSeconds acquire).1 ("ratelimit:" ++ bucket) =
        (tryAcquireAsync second bucket limit windowSeconds acquire).1 ("ratelimit:" ++ bucket) := by
  unfold tryAcquireAsync
  split
  · exact ⟨rfl, agrees⟩
  · dsimp only
    rw [agrees]
    split
    · exact ⟨rfl, (Valkey.put_self _ _ _).trans (Valkey.put_self _ _ _).symm⟩
    next applied _ =>
      cases applied with
      | true => exact ⟨rfl, (Valkey.put_self _ _ _).trans (Valkey.put_self _ _ _).symm⟩
      | false => exact ⟨rfl, agrees⟩

/-- A request goes through unless one of the rules trips. -/
theorem throttle_gateway (valkey : Valkey) (call : GatewayCall) :
    throttle config valkey (.gateway call) =
      ((evaluate (call.identity config) (call.arrival config) valkey (config.rules call.route)).1,
        (evaluate (call.identity config) (call.arrival config) valkey (config.rules call.route)).2.isNone) := by
  have rules : (call.arrival config).rules = config.rules call.route := rfl
  simp only [throttle, rateLimit, rules]
  cases evaluate (call.identity config) (call.arrival config) valkey (config.rules call.route) with
  | mk left tripped => cases tripped <;> rfl

/-- The two limiters over one Valkey keep their payers apart. -/
theorem throttle_isolated (config : ThrottleConfig) :
    Isolated (throttle config) (ThrottledCall.payer config) (owns config) where
  frame valkey call key foreign := by
    cases call with
    | gateway call =>
      rw [throttle_gateway]
      exact evaluate_frame (fun rule inside same => foreign ⟨call.route, rule, inside, same⟩) valkey
    | put shortId acquire => exact acquire_frame foreign valkey
    | get shortId acquire => exact acquire_frame foreign valkey
  footprint first second call agrees := by
    cases call with
    | gateway call =>
      obtain ⟨told, left⟩ := @evaluate_footprint (call.identity config) (call.arrival config) (config.rules call.route)
        (owns config (.address (call.identity config))) (fun rule inside => ⟨call.route, rule, inside, rfl⟩)
        first second agrees
      rw [throttle_gateway, throttle_gateway, told]
      exact ⟨rfl, left⟩
    | put shortId acquire =>
      obtain ⟨told, left⟩ := acquire_footprint (agrees _ rfl)
      exact ⟨told, fun key owned => owned ▸ left⟩
    | get shortId acquire =>
      obtain ⟨told, left⟩ := acquire_footprint (agrees _ rfl)
      exact ⟨told, fun key owned => owned ▸ left⟩
  apart _ _ _ := owns_apart

/-- The same request with other headers. -/
def ThrottledCall.withHeaders (headers : GatewayCall → ProxyHeaders) : ThrottledCall → ThrottledCall
  | .gateway call => .gateway { call with headers := headers call }
  | call => call

/-- The upgrade handler counts sockets under the address that the limiter would use, but only
where the headers are trusted and name one. -/
theorem upgrade_identity {call : GatewayCall} (trusted : config.trustForwardedFor) :
    clientIpFromHeaders call.headers = call.identity config ↔
      (forwardedIp call.headers).isSome ∨ call.socketRemoteAddr = "" ∨ call.socketRemoteAddr = "0.0.0.0" := by
  unfold GatewayCall.identity clientIp clientIpFromHeaders
  rw [trusted, if_pos rfl]
  cases forwardedIp call.headers with
  | some ip => simp
  | none =>
    by_cases missing : call.socketRemoteAddr = ""
    · simp [missing]
    · simp only [Option.getD_none, Option.isSome_none, Bool.false_eq_true, false_or, missing, String.isEmpty_iff, if_false]
      exact eq_comm

/-- Whether a request is let through depends on no other payer. In every sequence of requests to
the gateway's routes and to the ingest service, over any contents of Valkey and with any of its
failures, the answers to the requests that count against one address, or against one share's uploads
or downloads, are those it would get if no other request were made. Without
`TRUST_FORWARDED_FOR` an address is that of the socket, and no answer depends on what any
client writes into its headers. -/
theorem payers_isolated (config : ThrottleConfig) (valkey : Valkey) (calls : List ThrottledCall) (payer : Payer) :
    (serveAll (throttle config) valkey calls).filter (fun entry => entry.1.payer config = payer) =
      serveAll (throttle config) valkey (calls.filter fun call => call.payer config = payer) ∧
    (config.trustForwardedFor = false →
      (∀ call : GatewayCall, call.socketRemoteAddr ≠ "" → call.identity config = call.socketRemoteAddr) ∧
        ∀ headers : GatewayCall → ProxyHeaders,
          (serveAll (throttle config) valkey (calls.map (ThrottledCall.withHeaders headers))).map Prod.snd =
            (serveAll (throttle config) valkey calls).map Prod.snd) := by
  refine ⟨(throttle_isolated config).answers payer valkey calls, fun direct => ⟨fun call named => ?_, fun headers => ?_⟩⟩
  · simp [GatewayCall.identity, clientIp, direct, named]
  · apply serveAll_map
    intro valkey call
    cases call with
    | gateway call => simp [ThrottledCall.withHeaders, throttle, GatewayCall.identity, GatewayCall.arrival, clientIp, direct]
    | put => rfl
    | get => rfl

/-- Somebody who floods the gateway under a new forwarded address each time is refused, and
somebody else is not. -/
theorem payers_isolated_flood :
    let config : ThrottleConfig := ⟨false, 10, 100, 1⟩
    let call (socket : String) (xff : String) (nowMs : Nat) : ThrottledCall :=
      .gateway ⟨.read, ⟨some xff, none⟩, socket, nowMs, some xff, "", fun _ => .replied⟩
    let calls := [call "198.51.100.9" "a" 1000, call "198.51.100.9" "b" 1000, call "203.0.113.7" "c" 1000]
    (serveAll (throttle config) (fun _ => .vacant) calls).map Prod.snd = [true, false, true] ∧
    ∀ headers : GatewayCall → ProxyHeaders,
      (serveAll (throttle config) (fun _ => .vacant) (calls.map (ThrottledCall.withHeaders headers))).map Prod.snd =
        [true, false, true] := by
  intro config call calls
  have answers : (serveAll (throttle config) (fun _ => .vacant) calls).map Prod.snd = [true, false, true] := by
    decide +kernel
  refine ⟨answers, fun headers => ?_⟩
  obtain ⟨-, direct⟩ := payers_isolated config (fun _ => .vacant) calls (.address "203.0.113.7")
  exact ((direct rfl).2 headers).trans answers

end Isolation

end SlothBox.Proofs
