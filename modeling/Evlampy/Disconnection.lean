/-
Evlampy/Disconnection.lean

The transport under concurrent callers.  `TcpServer::sendTo` copies the handler
it has found and lets go of the lock before it calls the copy, so that handlers
may call the server themselves.  Between the two, the name can be disconnected
by someone else: a handler can be invoked after `disconnectClient` has returned
(`delivered_after_disconnect`).

What holds is `invoked_from_lookup`: every handler that is invoked was connected
when the same `sendTo` looked it up, and each `sendTo` invokes one handler at
most.  So after a removal only calls that had looked the handler up before still
invoke it.
-/
import Evlampy.ChatClient
import Evlampy.Parallel

namespace Evlampy

open Cxx Callback Prog System UnorderedMap

/-! ### Callers of the transport -/

/-- The functions of `TcpServer` that change or use the table. -/
inductive TcpOp
  | connectClient (username : Str) (handler : ClientId)
  | disconnectClient (username : Str)
  | sendTo (fromUser toUser payload : Str)

/-- A call and who makes it. -/
structure TcpRequest where
  caller : Nat
  op : TcpOp

/-- The call of a handler. -/
structure Invocation where
  handler : ClientId
  fromUser : Str
  payload : Str
  deriving DecidableEq

/-- Each locked section is one action; while a handler runs, anything can happen,
and it may throw.  `disconnectClient` returns nothing. -/
def TcpRequest.body (q : TcpRequest) : Prog TcpCall TcpCall.Res Invocation Exn (Option Bool) :=
  match q.op with
  | .connectClient username handler => do
      let ok ← Prog.act (TcpCall.connectClient username handler)
      return some ok
  | .disconnectClient username => do
      Prog.act (TcpCall.disconnectClient username)
      return none
  | .sendTo fromUser toUser payload => do
      let handler ← Prog.act (TcpCall.findHandler toUser)
      match handler with
      | none => return some false
      | some handler => do
          Prog.notify ⟨handler, fromUser, payload⟩
          return some true

/-- The transport by itself: every call is made by somebody, on a thread of their own. -/
def transport : System TcpCall TcpCall.Res Invocation Exn TcpRequest (Option Bool) TcpServer where
  exec := TcpCall.exec
  body := TcpRequest.body

/-- What a call of the transport can be seen to do. -/
abbrev TcpAct := Act TcpCall Invocation Exn TcpRequest (Option Bool)

/-- A table of handlers with the trace that led to it. -/
abbrev TcpHistory := Hist TcpCall Invocation Exn TcpRequest (Option Bool) TcpServer

/-- An interleaving of calls, from an empty table. -/
def transportRun (ms : List (PoolMove Exn TcpRequest Nat)) : TcpHistory :=
  (transport.runPool TcpRequest.caller .empty ms).hist

/-! ### What happened when -/

/-- The act number `n` of a history is `a`, by instance `i`, in the state `s`. -/
def ActAt (h : TcpHistory) (n i : Nat) (a : TcpAct) (s : TcpServer) : Prop :=
  h.2.reverse[n]? = some ⟨i, a, s⟩

/-- A handler is connected. -/
def ConnectedAt (h : TcpHistory) (n : Nat) (username : Str) (handler : ClientId) : Prop :=
  ∃ i s, ActAt h n i (.did (.connectClient username handler)) s ∧ username ∉ s.handlers

/-- Instance `i` erases the name from the table, whether it is there or not. -/
def DisconnectedAt (h : TcpHistory) (n i : Nat) (username : Str) : Prop :=
  ∃ s, ActAt h n i (.did (.disconnectClient username)) s

/-- Instance `i` looks up the handler of a name. -/
def LookedUpAt (h : TcpHistory) (n i : Nat) (username : Str) : Prop :=
  ∃ s, ActAt h n i (.did (.findHandler username)) s

/-- Instance `i` invokes a handler. -/
def InvokedAt (h : TcpHistory) (n i : Nat) (handler : ClientId) : Prop :=
  ∃ fromUser payload s, ActAt h n i (.notified ⟨handler, fromUser, payload⟩) s

/-- Instance `i` returns. -/
def ReturnedAt (h : TcpHistory) (n i : Nat) : Prop := ∃ r s, ActAt h n i (.returned r) s

variable {h : TcpHistory} {i j n : Nat} {a b : TcpAct} {s : TcpServer} {username : Str}
  {handler : ClientId}

theorem ActAt.lt (ha : ActAt h n i a s) : n < h.2.length := by
  rw [← List.length_reverse]
  exact (List.getElem?_eq_some_iff.mp ha).1

/-- What an act adds: the last one is new, and all before it are as they were. -/
theorem actAt_push : ActAt (transport.push h j b) n i a s ↔
    ActAt h n i a s ∨ (n = h.2.length ∧ j = i ∧ b = a ∧ h.1 = s) := by
  unfold ActAt
  show (Entry.mk j b h.1 :: h.2).reverse[n]? = _ ↔ _
  rw [List.reverse_cons]
  rcases Nat.lt_trichotomy n h.2.reverse.length with hlt | heq | hgt
  · rw [List.getElem?_append_left hlt]
    rw [List.length_reverse] at hlt
    exact ⟨Or.inl, fun hor => hor.resolve_right fun he => Nat.ne_of_lt hlt he.1⟩
  · subst heq
    rw [List.getElem?_concat_length, List.getElem?_eq_none (Nat.le_refl _), List.length_reverse]
    simp
  · rw [List.getElem?_eq_none (by rw [List.length_append]; exact hgt),
      List.getElem?_eq_none (Nat.le_of_lt hgt)]
    rw [List.length_reverse] at hgt
    simp [Nat.ne_of_gt hgt]

theorem ActAt.push (ha : ActAt h n i a s) (j : Nat) (b : TcpAct) :
    ActAt (transport.push h j b) n i a s := actAt_push.mpr (Or.inl ha)

theorem ConnectedAt.push (hc : ConnectedAt h n username handler) (j : Nat) (b : TcpAct) :
    ConnectedAt (transport.push h j b) n username handler := by
  obtain ⟨i, s, ha, hs⟩ := hc
  exact ⟨i, s, ha.push j b, hs⟩

theorem LookedUpAt.push (hl : LookedUpAt h n i username) (j : Nat) (b : TcpAct) :
    LookedUpAt (transport.push h j b) n i username := by
  obtain ⟨s, ha⟩ := hl
  exact ⟨s, ha.push j b⟩

theorem InvokedAt.push (hi : InvokedAt h n i handler) (j : Nat) (b : TcpAct) :
    InvokedAt (transport.push h j b) n i handler := by
  obtain ⟨fromUser, payload, s, ha⟩ := hi
  exact ⟨fromUser, payload, s, ha.push j b⟩

theorem disconnectedAt_push : DisconnectedAt (transport.push h j b) n i username ↔
    DisconnectedAt h n i username ∨
      (n = h.2.length ∧ j = i ∧ b = .did (.disconnectClient username)) := by
  constructor
  · rintro ⟨s, ha⟩
    rcases actAt_push.mp ha with ha | ⟨hn, hj, hb, -⟩
    · exact Or.inl ⟨s, ha⟩
    · exact Or.inr ⟨hn, hj, hb⟩
  · rintro (⟨s, ha⟩ | ⟨hn, hj, hb⟩)
    · exact ⟨s, ha.push j b⟩
    · exact ⟨h.1, actAt_push.mpr (Or.inr ⟨hn, hj, hb, rfl⟩)⟩

theorem invokedAt_push : InvokedAt (transport.push h j b) n i handler ↔
    InvokedAt h n i handler ∨ (n = h.2.length ∧ j = i ∧
      ∃ fromUser payload, b = .notified ⟨handler, fromUser, payload⟩) := by
  constructor
  · rintro ⟨fromUser, payload, s, ha⟩
    rcases actAt_push.mp ha with ha | ⟨hn, hj, hb, -⟩
    · exact Or.inl ⟨fromUser, payload, s, ha⟩
    · exact Or.inr ⟨hn, hj, fromUser, payload, hb⟩
  · rintro (hi | ⟨hn, hj, fromUser, payload, hb⟩)
    · exact hi.push j b
    · exact ⟨fromUser, payload, h.1, actAt_push.mpr (Or.inr ⟨hn, hj, hb, rfl⟩)⟩

/-- An act that invokes nothing. -/
theorem invokedAt_push_of_ne (hb : ∀ v, b ≠ .notified v) :
    InvokedAt (transport.push h j b) n i handler ↔ InvokedAt h n i handler := by
  rw [invokedAt_push]
  refine ⟨fun hor => hor.resolve_right ?_, Or.inl⟩
  rintro ⟨-, -, fromUser, payload, hb'⟩
  exact hb _ hb'

/-- Others only add acts. -/
theorem actAt_of_others {h' : TcpHistory} (ho : transport.Others j h h') :
    (∀ {n i a s}, ActAt h n i a s → ActAt h' n i a s) ∧
      (∀ {n i a s}, ActAt h' n i a s → n < h.2.length → ActAt h n i a s) ∧
      (∀ {n a s}, ActAt h' n j a s → ActAt h n j a s) ∧ h.2.length ≤ h'.2.length := by
  obtain ⟨new, hnew, hinst⟩ := ho.trace
  have hold : ∀ n < h.2.length, h'.2.reverse[n]? = h.2.reverse[n]? := by
    intro n hn
    rw [hnew, List.reverse_append, List.getElem?_append_left (by rwa [List.length_reverse])]
  refine ⟨fun ha => ?_, fun ha hn => ?_, fun {n a s} ha => ?_, ?_⟩
  · exact (hold _ ha.lt).trans ha
  · exact (hold _ hn).symm.trans ha
  · refine (hold n ?_).symm.trans ha
    -- an act of `j` is none of the new ones
    by_contra hge
    rw [not_lt, ← List.length_reverse] at hge
    unfold ActAt at ha
    rw [hnew, List.reverse_append, List.getElem?_append_right hge] at ha
    exact hinst _ (List.mem_reverse.mp (List.mem_of_getElem? ha)) rfl
  · rw [hnew, List.length_append]
    exact Nat.le_add_left _ _

/-! ### The table -/

/-- What is in the table was connected, and its name has not been disconnected
since. -/
def Tabled (h : TcpHistory) : Prop :=
  ∀ username handler, h.1.handlers.lookup username = some handler →
    ∃ n, ConnectedAt h n username handler ∧
      ∀ m i, DisconnectedAt h m i username → m < n

theorem DisconnectedAt.lt (hd : DisconnectedAt h n i username) : n < h.2.length := by
  obtain ⟨s, ha⟩ := hd
  exact ha.lt

/-- An act that changes no entry and disconnects nobody. -/
theorem Tabled.push_of_eq (ht : Tabled h) (hs : (transport.push h j b).1 = h.1)
    (hb : ∀ username, b ≠ .did (.disconnectClient username)) : Tabled (transport.push h j b) := by
  intro username handler hu
  rw [hs] at hu
  obtain ⟨n, hc, hd⟩ := ht username handler hu
  refine ⟨n, hc.push j b, fun m i hm => ?_⟩
  rcases disconnectedAt_push.mp hm with hm | ⟨-, -, e⟩
  · exact hd m i hm
  · exact absurd e (hb username)

theorem Tabled.push (ht : Tabled h) (j : Nat) (b : TcpAct) : Tabled (transport.push h j b) := by
  rcases b with q | e | v | r | r
  · exact ht.push_of_eq rfl fun _ e => by cases e
  · rcases e with ⟨name, c⟩ | name | name
    · by_cases hmem : name ∈ h.1.handlers
      · refine ht.push_of_eq ?_ fun _ e => by cases e
        show (⟨(emplace name c h.1.handlers).2⟩ : TcpServer) = h.1
        rw [emplace_of_mem c hmem]
      · intro username handler hu
        replace hu : (emplace name c h.1.handlers).2.lookup username = some handler := hu
        rw [emplace_of_notMem c hmem] at hu
        rcases lookup_insert_cases hu with ⟨rfl, rfl⟩ | ⟨-, hold⟩
        · -- the new entry
          refine ⟨h.2.length, ⟨j, h.1, actAt_push.mpr (Or.inr ⟨rfl, rfl, rfl, rfl⟩), hmem⟩, ?_⟩
          intro m i hm
          rcases disconnectedAt_push.mp hm with hm | ⟨-, -, e⟩
          · exact hm.lt
          · cases e
        · obtain ⟨n, hc, hd⟩ := ht username handler hold
          refine ⟨n, hc.push j _, fun m i hm => ?_⟩
          rcases disconnectedAt_push.mp hm with hm | ⟨-, -, e⟩
          · exact hd m i hm
          · cases e
    · intro username handler hu
      replace hu : (h.1.handlers.erase name).lookup username = some handler := hu
      rcases eq_or_ne username name with rfl | hne
      · rw [AList.lookup_erase] at hu
        cases hu
      · rw [AList.lookup_erase_ne hne] at hu
        obtain ⟨n, hc, hd⟩ := ht username handler hu
        refine ⟨n, hc.push j _, fun m i hm => ?_⟩
        rcases disconnectedAt_push.mp hm with hm | ⟨-, -, e⟩
        · exact hd m i hm
        · cases e
          exact absurd rfl hne
    · exact ht.push_of_eq rfl fun _ e => by cases e
  · exact ht.push_of_eq rfl fun _ e => by cases e
  · exact ht.push_of_eq rfl fun _ e => by cases e
  · exact ht.push_of_eq rfl fun _ e => by cases e

theorem body_unrestricted (q : TcpRequest) :
    (transport.body q).AllActs (fun _ => True) (fun _ => True) :=
  .of_forall (fun _ => trivial) (fun _ => trivial) _

theorem tabled_run (ms : List (PoolMove Exn TcpRequest Nat)) : Tabled (transportRun ms) := by
  refine pool_keeps transport TcpRequest.caller (P := fun _ _ => True) body_unrestricted ?_
    (fun q h i a hI _ => hI.push i a) ms
  intro username handler hu
  cases hu

/-! ### Invocations -/

/-- Instance `i` invokes, as act number `last`, the handler that act number `first`
has connected: it has looked it up, as act number `mid`, before anybody
disconnected the name. -/
structure Invokes (h : TcpHistory) (i : Nat) (username : Str) (handler : ClientId)
    (first mid last : Nat) : Prop where
  connected : ConnectedAt h first username handler
  since : first < mid
  found : LookedUpAt h mid i username
  kept : ∀ n j, DisconnectedAt h n j username → first < n → mid < n
  later : mid < last
  invoked : InvokedAt h last i handler

theorem Invokes.push {u : Str} {c : ClientId} {nz ny nx : Nat} (hi : Invokes h i u c nz ny nx)
    (j : Nat) (b : TcpAct) : Invokes (transport.push h j b) i u c nz ny nx where
  connected := hi.connected.push j b
  since := hi.since
  found := hi.found.push j b
  kept n k hd hn := by
    rcases disconnectedAt_push.mp hd with hd | ⟨rfl, -, -⟩
    · exact hi.kept n k hd hn
    · obtain ⟨s, ha⟩ := hi.found
      exact ha.lt
  later := hi.later
  invoked := hi.invoked.push j b

/-- Every invocation is of a handler that was looked up, and the only one of its
call. -/
def Explained (h : TcpHistory) : Prop :=
  ∀ n i handler, InvokedAt h n i handler →
    (∃ username first mid, Invokes h i username handler first mid n) ∧
      ∀ n' handler', InvokedAt h n' i handler' → n' = n

/-- An act that invokes nothing. -/
theorem Explained.push (he : Explained h) (hb : ∀ v, b ≠ .notified v) :
    Explained (transport.push h j b) := by
  intro n i handler hi
  rw [invokedAt_push_of_ne hb] at hi
  obtain ⟨⟨u, nz, ny, hinvokes⟩, honce⟩ := he n i handler hi
  refine ⟨⟨u, nz, ny, hinvokes.push j b⟩, fun n' handler' hi' => ?_⟩
  rw [invokedAt_push_of_ne hb] at hi'
  exact honce n' handler' hi'

/-- The first invocation of a call that has looked up its handler. -/
theorem Explained.invoke (he : Explained h) {u : Str} {c : ClientId} {nz ny : Nat}
    (hnone : ∀ n c, ¬ InvokedAt h n i c) (hconnected : ConnectedAt h nz u c) (hsince : nz < ny)
    (hfound : LookedUpAt h ny i u)
    (hkept : ∀ n j, DisconnectedAt h n j u → nz < n → ny < n) (fromUser payload : Str) :
    Explained (transport.push h i (.notified ⟨c, fromUser, payload⟩)) := by
  intro n k handler hk
  rcases invokedAt_push.mp hk with hold | ⟨rfl, rfl, _, _, hv⟩
  · -- older invocations are of other calls
    have hne : i ≠ k := by
      rintro rfl
      exact hnone n handler hold
    obtain ⟨⟨u', nz', ny', hinvokes⟩, honce⟩ := he n k handler hold
    refine ⟨⟨u', nz', ny', hinvokes.push i _⟩, fun n' handler' hi' => ?_⟩
    rcases invokedAt_push.mp hi' with hi' | ⟨-, hik, -⟩
    · exact honce n' handler' hi'
    · exact absurd hik hne
  · cases hv
    refine ⟨⟨u, nz, ny, ⟨hconnected.push i _, hsince, hfound.push i _, fun n j hd hn => ?_, ?_, ?_⟩⟩,
      fun n' handler' hi' => ?_⟩
    · rcases disconnectedAt_push.mp hd with hd | ⟨-, -, e⟩
      · exact hkept n j hd hn
      · cases e
    · obtain ⟨s, ha⟩ := hfound
      exact ha.lt
    · exact invokedAt_push.mpr (Or.inr ⟨rfl, rfl, fromUser, payload, rfl⟩)
    · rcases invokedAt_push.mp hi' with hi' | ⟨hn, -⟩
      · exact absurd hi' (hnone n' handler')
      · exact hn

/-- What `sendTo` knows once it has found the handler `c` of `u`, and until it
invokes it. -/
structure Found (h : TcpHistory) (i : Nat) (u : Str) (c : ClientId) : Prop where
  handler : ∃ first mid, ConnectedAt h first u c ∧ first < mid ∧ LookedUpAt h mid i u ∧
    ∀ n j, DisconnectedAt h n j u → first < n → mid < n
  none : ∀ n c, ¬ InvokedAt h n i c

/-- Nobody else can take it away. -/
theorem Found.others {h' : TcpHistory} {u : Str} {c : ClientId} (hf : Found h i u c)
    (ho : transport.Others i h h') : Found h' i u c := by
  obtain ⟨hold, hback, hown, -⟩ := actAt_of_others ho
  obtain ⟨⟨first, mid, ⟨k, s, hk, hs⟩, hsince, ⟨s', hmid⟩, hkept⟩, hnone⟩ := hf
  refine ⟨⟨first, mid, ⟨k, s, hold hk, hs⟩, hsince, ⟨s', hold hmid⟩, fun n j hd hn => ?_⟩, ?_⟩
  · obtain ⟨s'', hd⟩ := hd
    rcases Nat.lt_or_ge n h.2.length with hlt | hge
    · exact hkept n j ⟨s'', hback hd hlt⟩ hn
    · exact Nat.lt_of_lt_of_le hmid.lt hge
  · rintro n c' ⟨fromUser, payload, s'', ha⟩
    exact hnone n c' ⟨fromUser, payload, s'', hown ha⟩

/-- A lookup that succeeds finds a handler that is connected. -/
theorem Tabled.found (ht : Tabled h) {u : Str} {c : ClientId}
    (hu : h.1.handlers.lookup u = some c) (hnone : ∀ n c, ¬ InvokedAt h n i c) :
    Found (transport.push h i (.did (.findHandler u))) i u c := by
  obtain ⟨first, hc, hd⟩ := ht u c hu
  refine ⟨⟨first, h.2.length, hc.push i _, ?_, ⟨h.1, ?_⟩, fun n j hn hlt => ?_⟩, fun n c' hi => ?_⟩
  · obtain ⟨k, s, hk, -⟩ := hc
    exact hk.lt
  · exact actAt_push.mpr (Or.inr ⟨rfl, rfl, rfl, rfl⟩)
  · rcases disconnectedAt_push.mp hn with hn | ⟨-, -, e⟩
    · exact absurd (hd n j hn) (Nat.not_lt.mpr (Nat.le_of_lt hlt))
    · cases e
  · rw [invokedAt_push_of_ne fun _ e => by cases e] at hi
    exact hnone n c' hi

theorem explained_run (ms : List (PoolMove Exn TcpRequest Nat)) : Explained (transportRun ms) := by
  refine pool_invariant transport TcpRequest.caller (P := fun _ _ => True) (J := Tabled)
    body_unrestricted tabled_run ?_ ?_ ms
  · rintro n i handler ⟨fromUser, payload, s, ha⟩
    cases ha
  intro q h i hJ hI hlt _
  refine ⟨hI.push (fun _ e => by cases e), ?_⟩
  have hreturn : ∀ (r : Except Exn (Option Bool)) (h' : TcpHistory), Explained h' →
      Explained (transport.push h' i (.returned r)) := fun r h' hI' => hI'.push fun _ e => by cases e
  -- the call has done nothing yet
  have hnone : ∀ n c, ¬ InvokedAt (transport.push h i (.called q)) n i c := by
    rintro n c hi
    rw [invokedAt_push_of_ne fun _ e => by cases e] at hi
    obtain ⟨fromUser, payload, s, ha⟩ := hi
    have hmem := List.mem_reverse.mp (List.mem_of_getElem? ha)
    exact Nat.lt_irrefl _ (hlt _ hmem)
  obtain ⟨caller, op⟩ := q
  cases op with
  | connectClient username handler =>
      refine pwp_step fun h' h'' _ hI' _ hh'' => ?_
      subst hh''
      exact ⟨hI'.push (fun _ e => by cases e), fun h3 _ hI3 _ => hreturn _ h3 hI3⟩
  | disconnectClient username =>
      refine pwp_step fun h' h'' _ hI' _ hh'' => ?_
      subst hh''
      exact ⟨hI'.push (fun _ e => by cases e), fun h3 _ hI3 _ => hreturn _ h3 hI3⟩
  | sendTo fromUser toUser payload =>
      refine pwp_step fun h' h'' hJ' hI' he hh'' => ?_
      have hnone' : ∀ n c, ¬ InvokedAt h' n i c := by
        rintro n c ⟨fromUser, payload, s, ha⟩
        exact hnone n c ⟨fromUser, payload, s, (actAt_of_others he.meanwhile.others).2.2.1 ha⟩
      subst hh''
      refine ⟨hI'.push (fun _ e => by cases e), ?_⟩
      rcases hfind : h'.1.handlers.lookup toUser with - | handler
      · have hexec : (transport.exec (.findHandler toUser) h'.1).1 = none := hfind
        rw [hexec]
        exact fun h3 _ hI3 _ => hreturn _ h3 hI3
      · have hexec : (transport.exec (.findHandler toUser) h'.1).1 = some handler := hfind
        rw [hexec]
        have hfound := hJ'.found (i := i) hfind hnone'
        intro h3 _ hI3 he3
        obtain ⟨⟨first, mid, hc, hsince, hl, hkept⟩, hnone3⟩ := hfound.others he3.meanwhile.others
        have hI4 := hI3.invoke hnone3 hc hsince hl hkept fromUser payload
        refine ⟨hI4, fun a h5 _ hI5 _ => ⟨hI5.push (fun _ e => by cases e), ?_⟩⟩
        rcases a with x | _
        · exact fun h6 _ hI6 _ => hreturn _ h6 hI6
        · exact fun h6 _ hI6 _ => hreturn _ h6 hI6

/-- **What is delivered.**  In every interleaving, every handler that is invoked
was looked up by the same call after it had been connected and before its name
was disconnected, and is the only one the call invokes. -/
theorem invoked_from_lookup (ms : List (PoolMove Exn TcpRequest Nat)) (n i : Nat)
    (handler : ClientId) (hi : InvokedAt (transportRun ms) n i handler) :
    (∃ username first mid, Invokes (transportRun ms) i username handler first mid n) ∧
      ∀ n' handler', InvokedAt (transportRun ms) n' i handler' → n' = n :=
  explained_run ms n i handler hi

/-- Bob is connected and Alice sends to him; between her lookup and her call of the
handler he is disconnected. -/
def lateDelivery : List (PoolMove Exn TcpRequest Nat) :=
  [.call ⟨0, .connectClient (str "bob") 7⟩, .go 0, .go 0,
   .call ⟨1, .sendTo (str "alice") (str "bob") (str "hello")⟩, .go 1,
   .call ⟨0, .disconnectClient (str "bob")⟩, .go 0, .go 0,
   .go 1]

/-- Her call had looked up the handler it invokes. -/
theorem invoked_from_lookup_bob : ∃ username first mid,
    Invokes (transportRun lateDelivery) 1 username 7 first mid 8 :=
  (invoked_from_lookup lateDelivery 8 1 7 ⟨_, _, _, rfl⟩).1

/-- Once a disconnect has returned, the handler it removed is not invoked. -/
def SilentAfterDisconnect (h : TcpHistory) : Prop :=
  ∀ i username handler first mid last, Invokes h i username handler first mid last →
    ∀ n j m, DisconnectedAt h n j username → first < n → ReturnedAt h m j → n < m → last < m

/-- Here it is invoked afterwards. -/
theorem delivered_after_disconnect : ¬ ∀ ms, SilentAfterDisconnect (transportRun ms) := by
  intro hsilent
  have hinvokes : Invokes (transportRun lateDelivery) 1 (str "bob") 7 1 4 8 := by
    refine ⟨⟨_, _, rfl, by decide⟩, by decide, ⟨_, rfl⟩, fun n j hd hn => ?_, by decide,
      ⟨_, _, _, rfl⟩⟩
    obtain ⟨s, ha⟩ := hd
    have hlt : n < 9 := ha.lt
    -- the only disconnect is act number 6
    interval_cases n
    all_goals cases ha
    decide
  have hlast := hsilent lateDelivery 1 (str "bob") 7 1 4 8 hinvokes 6 2 7 ⟨_, rfl⟩ (by decide)
    ⟨_, _, rfl⟩ (by decide)
  exact absurd hlast (by decide)

end Evlampy
