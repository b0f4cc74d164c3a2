import Mqtr.Broker.Teardown

/-! Where the sockets of a shard are. A socket gets its token when it enters the table of connections. It
leaves the table when its end is announced to the shard, or when the shard drops it, and should then go to
the flusher. None arrives there: the shard's handle of the flusher is `Inner::Tx`, for which
`flush_connection` is `unreachable!`, and the thread aborts. -/
namespace Mqtr
open Outcome Std

namespace Miot
variable {miot : Miot} {c : ClientID}

def tokens (miot : Miot) : List ℕ := miot.conns.toList.map fun e => e.2.token

theorem tokens_remove {socket : Socket} (h : miot.conns[c]? = some socket) :
    miot.tokens.Perm (socket.token :: (miot.handleRemoveConnection c).2.tokens) :=
  (OrdMap.toList_perm_of_getElem? h).map _

theorem remove_of_none (h : miot.conns[c]? = none) : miot.handleRemoveConnection c = (none, miot) := by
  simp only [handleRemoveConnection, h, OrdMap.erase_of_getElem?_none h]

theorem tokens_add {addr : String} (h : miot.conns[c]? = none) :
    (miot.handleAddConnection c addr).tokens.Perm (miot.nextToken :: miot.tokens) := by
  have hperm := (OrdMap.toList_insert_perm miot.conns c ⟨c, addr, miot.nextToken⟩).map
    (fun e => e.2.token)
  rwa [OrdMap.erase_of_getElem?_none h] at hperm

end Miot

namespace Shard
variable {s s' : Shard} {clientId : ClientID} {socket : Socket} {err : Error}

theorem handleFlushConnection_flushed (h : s.handleFlushConnection socket err = .ok s') :
    s'.flushed = s.flushed ++ [(socket, err)] := by
  unfold handleFlushConnection at h
  split at h
  · obtain ⟨cinp, -, h⟩ := bind_eq_ok.mp h
    obtain ⟨topicFilters, -, h⟩ := bind_eq_ok.mp h
    cases h
    rfl
  · cases h
    rfl

theorem dropConnection_of_none (h : s.miot.conns[clientId]? = none) :
    s.dropConnection clientId err = .ok s := by
  unfold dropConnection
  rw [Miot.remove_of_none h]

theorem dropConnection_flushed (h : s.dropConnection clientId err = .ok s')
    (hconn : s.miot.conns[clientId]? = some socket) : s'.flushed = s.flushed ++ [(socket, err)] := by
  unfold dropConnection at h
  simp only [Miot.handleRemoveConnection, hconn] at h
  have hflushed := handleFlushConnection_flushed h
  exact hflushed

/-- Taking over from a session that has a connection comes to the flusher. Otherwise no connection is
touched. -/
theorem nukeSession_flushed {addr : String} (h : s.nukeSession clientId addr = .ok s') :
    (clientId ∈ s.sessions ∧ clientId ∈ s.miot.conns) ∧ s'.flushed.length = s.flushed.length + 1 ∨
      ¬ (clientId ∈ s.sessions ∧ clientId ∈ s.miot.conns) ∧ s'.miot = s.miot ∧
        s'.flushed = s.flushed ∧ ∀ c ∈ s.sessions, c ≠ clientId → c ∈ s'.sessions := by
  unfold nukeSession at h
  cases hsession : s.sessions[clientId]? with
  | none =>
    simp only [hsession] at h
    cases h
    refine .inr ⟨?_, rfl, rfl, fun c hc _ => hc⟩
    rintro ⟨hmem, -⟩
    rw [ExtTreeMap.mem_iff_isSome_getElem?, hsession] at hmem
    cases hmem
  | some session =>
    simp only [hsession] at h
    obtain ⟨topicFilters, -, h⟩ := bind_eq_ok.mp h
    cases hconn : s.miot.conns[clientId]? with
    | none =>
      rw [dropConnection_of_none] at h
      · cases h
        refine .inr ⟨?_, rfl, rfl, fun c hc hne => OrdMap.mem_erase.mpr ⟨hne.symm, hc⟩⟩
        rintro ⟨-, hmem⟩
        rw [ExtTreeMap.mem_iff_isSome_getElem?, hconn] at hmem
        cases hmem
      · exact hconn
    | some socket =>
      have hflushed := dropConnection_flushed h hconn
      refine .inl ⟨⟨OrdMap.mem_of_getElem? hsession, OrdMap.mem_of_getElem? hconn⟩, ?_⟩
      simp [hflushed]

theorem handleAddSession_flushed {args : AddSessionArgs} (h : s.handleAddSession args = .ok s') :
    s' = s ∨ s'.miot.nextToken = s.miot.nextToken + 1 ∧
      ((args.clientId ∈ s.sessions ∧ args.clientId ∈ s.miot.conns) ∧
          s'.flushed.length = s.flushed.length + 1 ∨
        ¬ (args.clientId ∈ s.sessions ∧ args.clientId ∈ s.miot.conns) ∧
          s'.miot = s.miot.handleAddConnection args.clientId args.addr ∧ s'.flushed = s.flushed ∧
            args.clientId ∈ s'.sessions ∧ ∀ c ∈ s.sessions, c ∈ s'.sessions) := by
  obtain ⟨size, -, h⟩ := bind_eq_ok.mp h
  obtain ⟨session₀, -, h⟩ := bind_eq_ok.mp h
  obtain ⟨connAck, -, h⟩ := bind_eq_ok.mp h
  obtain ⟨⟨session₁, status₁⟩, -, h⟩ := bind_eq_ok.mp h
  obtain ⟨⟨session, status⟩, -, h⟩ := bind_eq_ok.mp h
  cases status with
  | disconnected vals =>
    cases h
    exact .inl rfl
  | block vals =>
    cases h
    exact .inl rfl
  | ok vals =>
    obtain ⟨t, hnuke, h⟩ := bind_eq_ok.mp h
    obtain ⟨htoken, -⟩ := nukeSession_spec hnuke
    cases h
    refine .inr ⟨by simp [Miot.handleAddConnection, htoken], ?_⟩
    refine (nukeSession_flushed hnuke).imp_right ?_
    rintro ⟨hnot, hmiot, hflushed, hsessions⟩
    refine ⟨hnot, by rw [hmiot], hflushed, OrdMap.mem_insert.mpr (.inl rfl), fun c hc => ?_⟩
    by_cases heq : c = args.clientId
    · exact OrdMap.mem_insert.mpr (.inl heq.symm)
    · exact OrdMap.mem_insert.mpr (.inr (hsessions c hc heq))

end Shard

/-- The socket that the request brings has got its token. -/
def Request.token : Request → Option ℕ
  | .addSession _ => none
  | .flushConnection socket _ => some socket.token

namespace Control
open Transition
variable {s s' : Control} {e : Event}

/-- The sockets in the control queue and in the table. -/
def tokens (s : Control) : List ℕ := s.queue.filterMap Request.token ++ s.shard.miot.tokens

/-- A step of a running shard. One that comes to `flush_connection` aborts, and so does a SUBSCRIBE in
`as_topic_filters`; neither has an outcome. -/
def running (s : Control) (e : Event) : Option Control :=
  match e with
  | .subscribe _ _ => none
  | e => (s.step e).filter fun s' => s'.shard.flushed.length == s.shard.flushed.length

theorem step_of_running (h : s.running e = some s') :
    s.step e = some s' ∧ s'.shard.flushed.length = s.shard.flushed.length := by
  cases e with
  | subscribe clientId sub => cases h
  | _ => simpa [running, Option.filter_eq_some_iff] using h

/-- Every socket that got a token is in exactly one place, and every connection has its session. -/
structure Housed (s : Control) : Prop where
  first : 2 ≤ s.shard.miot.nextToken
  complete : s.tokens.Perm (List.range' 2 (s.shard.miot.nextToken - 2))
  connected : ∀ c ∈ s.shard.miot.conns, c ∈ s.shard.sessions

theorem Housed.fail {clientId : ClientID} {err : Error} (h : s.Housed)
    (hs : s.step (.fail clientId err) = some s') : s'.Housed := by
  obtain ⟨socket, hsocket, hs⟩ := Option.map_eq_some_iff.mp hs
  cases hs
  refine ⟨h.first, ?_, fun c hc => h.connected c (OrdMap.mem_erase.mp hc).2⟩
  refine List.Perm.trans ?_ h.complete
  simp only [tokens, List.filterMap_append, List.filterMap_cons, List.filterMap_nil, Request.token,
    List.append_assoc, List.singleton_append]
  exact (Miot.tokens_remove hsocket).symm.append_left _

/-- A session that is added without an abort is one of a client that has no connection in the table. -/
theorem Housed.add {args : AddSessionArgs} {queue : List Request} {shard : Shard}
    {born : ExtTreeMap ClientID ℕ} (h : s.Housed) (hqueue : s.queue = .addSession args :: queue)
    (hadd : s.shard.handleAddSession args = .ok shard)
    (hsame : shard.flushed.length = s.shard.flushed.length) : Housed ⟨shard, queue, born⟩ := by
  have htokens : s.tokens = queue.filterMap Request.token ++ s.shard.miot.tokens := by
    simp [tokens, hqueue, List.filterMap_cons, Request.token]
  rcases Shard.handleAddSession_flushed hadd with
    rfl | ⟨htoken, ⟨-, hmore⟩ | ⟨hnot, hmiot, -, hnew, hkept⟩⟩
  · have hcomplete := h.complete
    rw [htokens] at hcomplete
    exact ⟨h.first, hcomplete, h.connected⟩
  · omega
  have hnone : s.shard.miot.conns[args.clientId]? = none := by
    rw [← Option.not_isSome_iff_eq_none, ← ExtTreeMap.mem_iff_isSome_getElem?]
    exact fun hc => hnot ⟨h.connected _ hc, hc⟩
  refine ⟨htoken ▸ Nat.le_succ_of_le h.first, ?_, fun c hc => ?_⟩
  · obtain ⟨n, hn⟩ := Nat.exists_eq_add_of_le h.first
    have hcomplete := h.complete
    have hcount : s.shard.miot.nextToken - 2 = n := by omega
    have hnext : shard.miot.nextToken - 2 = n + 1 := by omega
    rw [htokens, hcount] at hcomplete
    rw [hnext, List.range'_1_concat, ← hn, tokens, hmiot]
    calc List.Perm _ (queue.filterMap Request.token ++ s.shard.miot.nextToken :: s.shard.miot.tokens) :=
          (Miot.tokens_add hnone).append_left _
      List.Perm _ (s.shard.miot.nextToken :: (queue.filterMap Request.token ++ s.shard.miot.tokens)) :=
        List.perm_middle
      List.Perm _ (s.shard.miot.nextToken :: List.range' 2 n) := hcomplete.cons _
      List.Perm _ (List.range' 2 n ++ [s.shard.miot.nextToken]) := (List.perm_append_singleton _ _).symm
  · rw [hmiot] at hc
    rcases OrdMap.mem_insert.mp hc with rfl | hc
    · exact hnew
    · exact hkept c (h.connected c hc)

theorem running_flush {socket : Socket} {err : Error} {queue : List Request}
    (hqueue : s.queue = .flushConnection socket err :: queue) : s.running .process = none := by
  cases hs : s.running .process with
  | none => rfl
  | some s' =>
    obtain ⟨hstep, hsame⟩ := step_of_running hs
    simp only [step, hqueue, toOption_eq_some] at hstep
    obtain ⟨shard, hflush, hstep⟩ := bind_eq_ok.mp hstep
    cases hstep
    simp [Shard.handleFlushConnection_flushed hflush] at hsame

theorem running_drop (clientId : ClientID) (err : Error) :
    s.running (.drop clientId err) =
      if clientId ∈ s.shard.miot.conns then none else some s := by
  cases hconn : s.shard.miot.conns[clientId]? with
  | none =>
    have hnot : clientId ∉ s.shard.miot.conns := by
      simp [ExtTreeMap.mem_iff_isSome_getElem?, hconn]
    simp [running, step, Shard.dropConnection_of_none hconn, hnot, Outcome.toOption]
  | some socket =>
    rw [if_pos (OrdMap.mem_of_getElem? hconn)]
    cases hs : s.running (.drop clientId err) with
    | none => rfl
    | some s' =>
      obtain ⟨hstep, hsame⟩ := step_of_running hs
      obtain ⟨shard, hshard, rfl⟩ := Option.map_eq_some_iff.mp hstep
      simp [Shard.dropConnection_flushed (toOption_eq_some.mp hshard) hconn] at hsame

theorem Housed.running (h : s.Housed) (hs : s.running e = some s') : s'.Housed := by
  obtain ⟨hstep, hsame⟩ := step_of_running hs
  cases e with
  | connect args =>
    cases hstep
    exact ⟨h.first, by simpa [tokens, List.filterMap_cons, Request.token] using h.complete, h.connected⟩
  | fail clientId err => exact h.fail hstep
  | process =>
    cases hqueue : s.queue with
    | nil => simp [step, hqueue] at hstep
    | cons req queue =>
      cases req with
      | flushConnection socket err =>
        rw [running_flush hqueue] at hs
        cases hs
      | addSession args =>
        simp only [step, hqueue, toOption_eq_some] at hstep
        obtain ⟨shard, hadd, hstep⟩ := bind_eq_ok.mp hstep
        cases hstep
        exact h.add hqueue hadd hsame
  | subscribe clientId sub => cases hs
  | drop clientId err =>
    rw [running_drop] at hs
    split_ifs at hs
    cases hs
    exact h

end Control
end Mqtr
