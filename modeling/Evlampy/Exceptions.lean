/-
Evlampy/Exceptions.lean

What exceptions do to a send.  Two kinds reach the sender.  A library call that
fails while a copy is made ends the loop over the members of a group where it
stands: `group_send_atomic_iff` says exactly when nothing has been sent by then.
And what an observer of the receiver throws comes back through `handleIncoming`,
which stops standard exceptions alone: a message is stored after the receiver
has heard of it, unless an observer has thrown anything else
(`receiver_breaks_sender_iff`).
-/
import Evlampy.Reading

namespace Evlampy

open Cxx Callback Prog System ChatServer ChatClient MessageProtocol AES256GCMStrategy
  OpenSSLKeyFactory

variable {env : Env} {h : History} {i : Nat} {c : ClientId}

/-! ### Standard exceptions -/

/-- Whatever arrives, `handleIncoming` survives reading it. -/
theorem throwsStd_readIncoming (self : ChatClient) (n : Nat) (payload : Str) :
    ThrowsStd (readIncoming env self n payload) := by
  unfold readIncoming
  apply (throwsStd_deserialize payload).bind
  intro message
  apply (OpenSSL.throwsStd_decryptWithPrivateKey _ n _ _).bind
  intro sessionKey
  apply (OpenSSL.throwsStd_decrypt _ n _ _).bind
  exact fun plaintext => throwsStd_ok _

/-! ### What observers throw -/

/-- An observer that a call was running has thrown something that is no standard
exception; `t` is what the call has done. -/
def Interrupted (t : List (Entry Eff Notice Exn Call Value World)) : Prop :=
  ∃ x ∈ t, ∃ y, x.act = .resumed (.error y) ∧ ∀ e, y ≠ .std e

theorem interrupted_cons {x : Entry Eff Notice Exn Call Value World}
    {t : List (Entry Eff Notice Exn Call Value World)} : Interrupted (x :: t) ↔
      (∃ y, x.act = .resumed (.error y) ∧ ∀ e, y ≠ .std e) ∨ Interrupted t := by
  simp only [Interrupted, List.exists_mem_cons_iff]

/-- Instance `i` has stored the messages `ms`, the newest first, and `b` says
whether it was interrupted. -/
structure Tally (i : Nat) (h : History) (ms : List Message) (b : Prop) : Prop where
  copies : copiesOf i h = ms
  interrupted : Interrupted (own i h.2) ↔ b

variable {ms : List Message} {b : Prop}

theorem Tally.others (ht : Tally i h ms b) {h' : History} (ho : env.system.Others i h h') :
    Tally i h' ms b := by
  refine ⟨(copiesOf_others ho).trans ht.copies, ?_⟩
  rw [ho.own_eq]
  exact ht.interrupted

/-- What the next act of the instance adds. -/
theorem Tally.cons (ht : Tally i h ms b) (a : Act Eff Notice Exn Call Value) :
    Tally i (env.system.push h i a) ((storedBy a).toList ++ ms)
      ((∃ y, a = .resumed (.error y) ∧ ∀ e, y ≠ .std e) ∨ b) := by
  refine ⟨by rw [copiesOf_push_self, ht.copies], ?_⟩
  rw [System.push, own_cons_self, interrupted_cons, ht.interrupted]

/-- Acts that are no answers of an observer. -/
theorem Tally.push (ht : Tally i h ms b) {a : Act Eff Notice Exn Call Value}
    (ha : ∀ r, a ≠ .resumed r) : Tally i (env.system.push h i a) ((storedBy a).toList ++ ms) b := by
  have hcons : Tally i (env.system.push h i a) _ _ := ht.cons a
  refine ⟨hcons.copies, hcons.interrupted.trans (or_iff_right ?_)⟩
  rintro ⟨y, hy, -⟩
  exact ha _ hy

/-- An answer of an observer. -/
theorem Tally.resumed (ht : Tally i h ms False) (r : Except Exn Unit) :
    Tally i (env.system.push h i (.resumed r)) ms (∃ y, r = .error y ∧ ∀ e, y ≠ .std e) := by
  have hcons : Tally i (env.system.push h i (.resumed r)) _ _ := ht.cons (.resumed r)
  refine ⟨hcons.copies, hcons.interrupted.trans ?_⟩
  rw [or_false]
  constructor
  · rintro ⟨y, hy, hstd⟩
    cases hy
    exact ⟨y, rfl, hstd⟩
  · rintro ⟨y, rfl, hstd⟩
    exact ⟨y, rfl, hstd⟩

/-- How a part of a send ends that stores nothing: it returns, or it was
interrupted and throws on. -/
def Passes {α : Type} (i : Nat) (ms : List Message) (r : Except Exn α) (h : History) : Prop :=
  match r with
  | .ok _ => Tally i h ms False
  | .error y => Tally i h ms True ∧ ∀ e, y ≠ .std e

/-- `handleIncoming` lets through what is no standard exception. -/
theorem wp_handleIncoming_passes (ht : Tally i h ms False) (d : ClientId) (fromUser payload : Str) :
    env.system.wp (fun _ => True) (fun _ => True) i (handleIncoming env d fromUser payload)
      (fun r h' => Passes i ms r h') h := by
  refine wp_tryCatch.mpr (wp_step fun self h1 _ hh1 => ?_)
  have ht1 : Tally i h1 ms False := by
    rw [hh1]
    exact ht.push fun _ e => by cases e
  refine wp_step fun n h2 _ hh2 => ?_
  have ht2 : Tally i h2 ms False := by
    rw [hh2]
    exact ht1.push fun _ e => by cases e
  refine wp_ofExcept_bind (fun r _ => ?_) fun x hx => ?_
  · refine wp_notify.mpr ⟨trivial, fun a h3 _ _ ho => ?_⟩
    have ht3 : Tally i h3 ms False := (ht2.push fun _ e => by cases e).others ho
    have hanswer : Tally i (env.system.push h3 i (.resumed a)) _ _ := ht3.resumed a
    rcases a with y | _
    · cases y with
      | std e =>
          exact ⟨hanswer.copies, hanswer.interrupted.trans
            (iff_false_intro fun ⟨y, hy, hstd⟩ => by cases hy; exact hstd e rfl)⟩
      | other =>
          refine ⟨⟨hanswer.copies, hanswer.interrupted.trans (iff_true_intro ⟨_, rfl, ?_⟩)⟩, ?_⟩
          all_goals exact fun e he => by cases he
      | undefinedBehaviour =>
          refine ⟨⟨hanswer.copies, hanswer.interrupted.trans (iff_true_intro ⟨_, rfl, ?_⟩)⟩, ?_⟩
          all_goals exact fun e he => by cases he
    · exact ⟨hanswer.copies, hanswer.interrupted.trans
        (iff_false_intro fun ⟨y, hy, _⟩ => by cases hy)⟩
  · -- what cannot be read is logged and dropped
    obtain ⟨e, rfl⟩ := throwsStd_readIncoming self n payload x hx
    exact ht2

theorem wp_send_passes (ht : Tally i h ms False) (toUser payload : Str) :
    env.system.wp (fun _ => True) (fun _ => True) i (send env c toUser payload)
      (fun r h' => Passes i ms r h') h := by
  refine wp_step fun self h1 _ hh1 => ?_
  have ht1 : Tally i h1 ms False := by
    rw [hh1]
    exact ht.push fun _ e => by cases e
  split
  · refine wp_step fun handler h2 _ hh2 => ?_
    have ht2 : Tally i h2 ms False := by
      rw [hh2]
      exact ht1.push fun _ e => by cases e
    rcases handler with - | receiver
    · exact ht2
    · refine wp_step fun _ h3 _ hh3 => ?_
      have ht3 : Tally i h3 ms False := by
        rw [hh3]
        exact ht2.push fun _ e => by cases e
      refine wp_bind.mpr (wp_mono (fun r h4 hr => ?_) (wp_handleIncoming_passes ht3 _ _ _))
      rcases r with y | _
      · exact hr
      · exact hr
  · exact ht1

/-- A message that can be serialized is stored, unless the send was interrupted. -/
theorem wp_deliver_passes (ht : Tally i h ms False) {toUser : Str} {message : Message} {wire : Str}
    (hwire : serialize env.ssl.base64 message = .ok wire) :
    env.system.wp (fun _ => True) (fun _ => True) i (deliver env c toUser message)
      (fun r h' => match r with
        | .ok _ => ∃ m, Tally i h' (m :: ms) False
        | .error y => Tally i h' ms True ∧ ∀ e, y ≠ .std e) h := by
  refine wp_ofExcept_bind (fun wire' hwire' => ?_) fun x hx => ?_
  swap
  · rw [hwire] at hx
    cases hx
  refine wp_bind.mpr (wp_mono (fun r h1 hr => ?_) (wp_send_passes ht toUser wire'))
  rcases r with y | delivered
  · exact hr
  · exact wp_act.mpr ⟨_, Tally.push hr fun _ e => by cases e⟩

/-! ### A receiver and a sender -/

/-- A call that has done nothing so far begins. -/
theorem tally_called (hnone : own i h.2 = []) (q : Call) :
    Tally i (env.system.push h i (.called q)) [] False := by
  have hbegin : Tally i h [] False := by
    refine ⟨by rw [copiesOf, hnone]; rfl, iff_of_false ?_ id⟩
    rw [hnone]
    rintro ⟨x, hx, -⟩
    cases hx
  exact hbegin.push fun _ e => by cases e

theorem wp_sendMessage_passes {toUser plaintext wire : Str} {message : Message}
    (ht : Tally i h [] False) (hin : (h.1.clients c).loggedIn = true)
    (hkey : h.1.server.getPublicKey toUser ≠ [])
    (hmessage : composeMessage env (h.1.clients c) h.1.draws toUser
      (h.1.server.getPublicKey toUser) plaintext = .ok message)
    (hwire : serialize env.ssl.base64 message = .ok wire) :
    env.system.wp (fun _ => True) (fun _ => True) i (sendMessage env c toUser plaintext)
      (fun r h' => match r with
        | .ok b => b = true ∧ ∃ m, Tally i h' [m] False
        | .error _ => Tally i h' [] True) h := by
  refine wp_step fun self h1 hself hh1 => ?_
  obtain rfl : self = h.1.clients c := hself
  have ht1 : Tally i h1 [] False := by
    rw [hh1]
    exact ht.push fun _ e => by cases e
  rw [if_pos hin]
  refine wp_step fun receiverPublicKey h2 hpem hh2 => ?_
  have ht2 : Tally i h2 [] False := by
    rw [hh2]
    exact ht1.push fun _ e => by cases e
  obtain rfl : receiverPublicKey = h.1.server.getPublicKey toUser := by
    rw [hpem, hh1]
    rfl
  rw [if_neg hkey]
  refine wp_step fun n h3 hn hh3 => ?_
  have ht3 : Tally i h3 [] False := by
    rw [hh3]
    exact ht2.push fun _ e => by cases e
  obtain rfl : n = h.1.draws := by
    rw [hn, hh2, hh1]
    rfl
  refine wp_ofExcept_bind (fun message' hmessage' => ?_) fun x hx => ?_
  · cases hmessage.symm.trans hmessage'
    refine wp_bind.mpr (wp_mono (fun r h4 hr => ?_) (wp_deliver_passes ht3 hwire))
    rcases r with y | _
    · exact hr.1
    · exact ⟨rfl, hr⟩
  · rw [hmessage] at hx
    cases hx

/-- The contract of a `sendMessage` whose own library calls succeed: it returns true and
stores one message exactly if nothing has interrupted it. -/
def SendContract (env : Env) (q : Call) (w : World) (r : Except Exn Value)
    (t : List (Entry Eff Notice Exn Call Value World)) : Prop :=
  ∀ toUser plaintext message wire, q.op = .sendMessage toUser plaintext →
    (w.clients q.client).loggedIn = true → w.server.getPublicKey toUser ≠ [] →
    composeMessage env (w.clients q.client) w.draws toUser (w.server.getPublicKey toUser) plaintext
      = .ok message →
    serialize env.ssl.base64 message = .ok wire →
    ((r = .ok (.bool true) ∧ (t.filterMap fun z => storedBy z.act).length = 1) ↔ ¬ Interrupted t)

theorem wp_sendContract (q : Call) (hnone : own i h.2 = []) :
    env.system.wp (fun _ => True) (fun _ => True) i (Call.body env q)
      (fun r h' => SendContract env q h.1 r (own i h'.2)) (env.system.push h i (.called q)) := by
  by_cases hsend : ∃ toUser plaintext message wire, q.op = .sendMessage toUser plaintext ∧
    (h.1.clients q.client).loggedIn = true ∧ h.1.server.getPublicKey toUser ≠ [] ∧
    composeMessage env (h.1.clients q.client) h.1.draws toUser (h.1.server.getPublicKey toUser)
      plaintext = .ok message ∧ serialize env.ssl.base64 message = .ok wire
  · obtain ⟨c, op⟩ := q
    obtain ⟨toUser, plaintext, message, wire, rfl, hin, hkey, hmessage, hwire⟩ := hsend
    refine wp_bind_pure.mpr (wp_mono (fun r h' hr => ?_) (wp_sendMessage_passes
      (tally_called hnone ⟨c, .sendMessage toUser plaintext⟩) hin hkey hmessage hwire))
    intro toUser' plaintext' message' wire' hop _ _ _ _
    rcases r with y | b
    · refine iff_of_false ?_ (not_not_intro (hr.interrupted.mpr trivial))
      rintro ⟨hok, -⟩
      cases hok
    · obtain ⟨rfl, m, hm⟩ := hr
      refine iff_of_true ⟨rfl, ?_⟩ hm.interrupted.mp
      rw [show (own i h'.2).filterMap (fun z => storedBy z.act) = [m] from hm.copies]
      rfl
  · refine wp_mono (fun r h' _ => ?_) wp_trivial
    intro toUser plaintext message wire hop hin hkey hmessage hwire
    exact absurd ⟨toUser, plaintext, message, wire, hop, hin, hkey, hmessage, hwire⟩ hsend

/-- The call has done what it should: it has returned true and stored one message. -/
def Sent (i : Nat) (r : Except Exn Value) (h : History) : Prop :=
  r = .ok (.bool true) ∧ (copiesOf i h).length = 1

/-- **A receiver breaks a sender** by throwing what is no standard exception, and in
no other way.  In every run, a call of `sendMessage` whose own library calls succeed
returns unless an observer never does; and then it has returned true and stored one
message if and only if no observer has interrupted it. -/
theorem receiver_breaks_sender_iff (env : Env) (w : World) (ms : List (Move Exn Call))
    {x : Entry Eff Notice Exn Call Value World} (hx : x ∈ (env.system.run w ms).hist.2)
    {toUser plaintext wire : Str} {message : Message}
    (hcall : x.act = .called ⟨c, .sendMessage toUser plaintext⟩)
    (hin : (x.before.clients c).loggedIn = true)
    (hkey : x.before.server.getPublicKey toUser ≠ [])
    (hmessage : composeMessage env (x.before.clients c) x.before.draws toUser
      (x.before.server.getPublicKey toUser) plaintext = .ok message)
    (hwire : serialize env.ssl.base64 message = .ok wire) :
    Settled (env.system.run w ms).stack (env.system.run w ms).hist x.inst ∧
      ∀ y ∈ (env.system.run w ms).hist.2, y.inst = x.inst → ∀ r, y.act = .returned r →
        (Sent x.inst r (env.system.run w ms).hist ↔
          ¬ Interrupted (own x.inst (env.system.run w ms).hist.2)) := by
  refine ⟨settled_run env.system w ms hcall hx, fun y hy hinst r hr => ?_⟩
  obtain ⟨rest, hown, hrest⟩ := run_accounts env.system (J := fun _ => True)
    (P := SendContract env) (fun _ => trivial) (fun q h i _ hnone => wp_sendContract q hnone) ms
    hx hy hinst hcall hr
  have hsent := hrest toUser plaintext message wire rfl hin hkey hmessage hwire
  rw [Sent, copiesOf, hown, List.filterMap_cons, interrupted_cons, hr]
  refine hsent.trans (not_congr (or_iff_right ?_).symm)
  rintro ⟨z, hz, -⟩
  cases hz

/-- What an act throws, if it ends a call by an exception. -/
def failureOf : Act Eff Notice Exn Call Value → Option Exn
  | .returned (.error x) => some x
  | _ => none

theorem returned_of_failureOf {a : Act Eff Notice Exn Call Value} {x : Exn}
    (hx : failureOf a = some x) : a = .returned (.error x) := by
  cases a with
  | returned r =>
      rcases r with y | v
      · cases hx
        rfl
      · cases hx
  | _ => cases hx

/-- Alice's send to Bob. -/
def greetingCall : Call := ⟨0, .sendMessage (str "bob") (str "hi")⟩

/-- The call of a send that is about to succeed. -/
def Promising (env : Env) (x : Entry Eff Notice Exn Call Value World) : Prop :=
  callOf x.act = some greetingCall ∧ (x.before.clients 0).loggedIn = true ∧
    x.before.server.getPublicKey (str "bob") ≠ [] ∧
    (composeMessage env (x.before.clients 0) x.before.draws (str "bob")
      (x.before.server.getPublicKey (str "bob")) (str "hi") >>=
        serialize env.ssl.base64).toOption.isSome = true

instance (env : Env) (x : Entry Eff Notice Exn Call Value World) : Decidable (Promising env x) :=
  inferInstanceAs (Decidable (_ ∧ _ ∧ _ ∧ _))

theorem Promising.composed {x : Entry Eff Notice Exn Call Value World} (hx : Promising env x) :
    ∃ message wire, composeMessage env (x.before.clients 0) x.before.draws (str "bob")
      (x.before.server.getPublicKey (str "bob")) (str "hi") = .ok message ∧
        serialize env.ssl.base64 message = .ok wire := by
  obtain ⟨-, -, -, hsome⟩ := hx
  rcases hr : composeMessage env (x.before.clients 0) x.before.draws (str "bob")
    (x.before.server.getPublicKey (str "bob")) (str "hi") >>= serialize env.ssl.base64 with y | wire
  · rw [hr] at hsome
    cases hsome
  · obtain ⟨message, hmessage, hwire⟩ := bind_eq_ok.mp hr
    exact ⟨message, wire, hmessage, hwire⟩

/-- In the run `greeting`. -/
theorem receiver_breaks_sender_iff_greeting :
    ∃ x ∈ (Env.reference.system.run (World.initial Env.names Env.noFiles) greeting).hist.2,
      callOf x.act = some greetingCall ∧
      ∀ y ∈ (Env.reference.system.run (World.initial Env.names Env.noFiles) greeting).hist.2,
        y.inst = x.inst → ∀ r, y.act = .returned r →
          (Sent x.inst r (Env.reference.system.run (World.initial Env.names Env.noFiles)
              greeting).hist ↔
            ¬ Interrupted (own x.inst (Env.reference.system.run
              (World.initial Env.names Env.noFiles) greeting).hist.2)) := by
  have hcall : ∃ x ∈ (Env.reference.system.run (World.initial Env.names Env.noFiles)
      greeting).hist.2, Promising Env.reference x := by decide +kernel
  obtain ⟨x, hx, hprom⟩ := hcall
  obtain ⟨message, wire, hmessage, hwire⟩ := hprom.composed
  exact ⟨x, hx, hprom.1, (receiver_breaks_sender_iff Env.reference _ greeting hx
    (called_of_callOf hprom.1) hprom.2.1 hprom.2.2.1 hmessage hwire).2⟩

/-- One of Bob's observers throws an integer at Alice, and her message is lost. -/
theorem receiver_breaks_sender : ¬ ∀ ms,
    ∀ x ∈ (Env.reference.run Env.names Env.noFiles ms).hist.2,
    ∀ y ∈ (Env.reference.run Env.names Env.noFiles ms).hist.2, y.inst = x.inst →
    ∀ c toUser plaintext message wire r, x.act = .called ⟨c, .sendMessage toUser plaintext⟩ →
      (x.before.clients c).loggedIn = true → x.before.server.getPublicKey toUser ≠ [] →
      composeMessage Env.reference (x.before.clients c) x.before.draws toUser
        (x.before.server.getPublicKey toUser) plaintext = .ok message →
      serialize Env.reference.ssl.base64 message = .ok wire →
      y.act = .returned r → Sent x.inst r (Env.reference.run Env.names Env.noFiles ms).hist := by
  intro h
  have hrun : ∃ x ∈ (Env.reference.run Env.names Env.noFiles
        (opening ++ [.call greetingCall, .answer (.error .other)])).hist.2,
      ∃ y ∈ (Env.reference.run Env.names Env.noFiles
        (opening ++ [.call greetingCall, .answer (.error .other)])).hist.2,
      y.inst = x.inst ∧ Promising Env.reference x ∧ failureOf y.act = some .other := by
    decide +kernel
  obtain ⟨x, hx, y, hy, hinst, hprom, hfail⟩ := hrun
  obtain ⟨message, wire, hmessage, hwire⟩ := hprom.composed
  obtain ⟨hok, -⟩ := h _ x hx y hy hinst 0 _ _ message wire _ (called_of_callOf hprom.1) hprom.2.1
    hprom.2.2.1 hmessage hwire (returned_of_failureOf hfail)
  cases hok

/-! ### A group send -/

/-- The act stores a message or calls the receive handler of a client. -/
def Transmits (a : Act Eff Notice Exn Call Value) : Prop :=
  (∃ m, a = .did (.server (.storeMessage m))) ∨ ∃ d fromUser payload,
    a = .did (.invoke d fromUser payload)

/-- Nothing has been sent. -/
def Unsent (t : List (Entry Eff Notice Exn Call Value World)) : Prop :=
  ∀ x ∈ t, ¬ Transmits x.act

theorem Unsent.push (hu : Unsent (own i h.2)) {a : Act Eff Notice Exn Call Value}
    (ha : ¬ Transmits a) : Unsent (own i (env.system.push h i a).2) := by
  rw [System.push, own_cons_self]
  intro x hx
  rcases List.mem_cons.mp hx with rfl | hx
  · exact ha
  · exact hu x hx

/-- Actions that send nothing. -/
theorem unsent_act (ht : Tally i h [] False) (hu : Unsent (own i h.2)) {e : Eff}
    (hstore : storedBy (.did e) = none)
    (hinvoke : ∀ d fromUser payload, e ≠ .invoke d fromUser payload) :
    Tally i (env.system.push h i (.did e)) [] False ∧
      Unsent (own i (env.system.push h i (.did e)).2) := by
  have hpush : Tally i (env.system.push h i (.did e)) ((storedBy (.did e)).toList ++ []) False :=
    ht.push fun _ e => by cases e
  rw [hstore] at hpush
  refine ⟨hpush, hu.push ?_⟩
  rintro (⟨m, hm⟩ | ⟨d, fromUser, payload, hd⟩)
  · rw [hm] at hstore
    cases hstore
  · cases hd
    exact hinvoke d fromUser payload rfl

theorem not_unsent_of_copies (hcopies : copiesOf i h ≠ []) : ¬ Unsent (own i h.2) := by
  intro hu
  obtain ⟨m, hm⟩ := List.exists_mem_of_ne_nil _ hcopies
  obtain ⟨x, hx, hinst, hact⟩ := mem_copiesOf.mp hm
  exact hu x (mem_own.mpr ⟨hx, hinst⟩) (Or.inl ⟨m, hact⟩)

/-- What has been stored stays stored. -/
theorem wp_copies {α : Type} {p : Code α} (hcopies : copiesOf i h ≠ []) :
    env.system.wp (fun _ => True) (fun _ => True) i p (fun _ h' => copiesOf i h' ≠ []) h := by
  have hpush : ∀ (h : History) (a : Act Eff Notice Exn Call Value), copiesOf i h ≠ [] →
      copiesOf i (env.system.push h i a) ≠ [] := by
    intro h a hne
    rw [copiesOf_push_self]
    exact List.append_ne_nil_of_right_ne_nil _ hne
  refine wp_of_allActs (K := fun h => copiesOf i h ≠ []) (fun e h _ hK => hpush h _ hK)
    (fun n h _ hK => ⟨trivial, fun a h' _ _ ho => hpush h' _ ?_⟩)
    (.of_forall (P := fun _ => True) (Q := fun _ => True) (fun _ => trivial) (fun _ => trivial) p)
    hcopies
  rw [copiesOf_others ho]
  exact hpush h _ hK

/-- The first member with a key, of those in the list, cannot be sent a copy: the key
is none, or the copy cannot be encrypted or serialized. -/
def FirstFails (env : Env) (s : ChatServer) (self : ChatClient) (n : Nat) (groupId : Str)
    (sessionKey encryptedPayload : Bytes) : List Str → Prop
  | [] => False
  | member :: members =>
      if s.getPublicKey member = [] then
        FirstFails env s self n groupId sessionKey encryptedPayload members
      else ∀ wire, (composeCopy env self n member (s.getPublicKey member) groupId sessionKey
        encryptedPayload >>= serialize env.ssl.base64) ≠ .ok wire

/-- Nothing can be sent to the group: the payload cannot be encrypted, or not even the
first copy can be made. -/
def PreparationFails (env : Env) (w : World) (c : ClientId) (groupId plaintext : Str) : Prop :=
  ∀ r, composePayload env w.draws plaintext = .ok r →
    FirstFails env w.server (w.clients c) (w.draws + 2) groupId r.1 r.2
      (w.server.getGroupMembers groupId)

theorem wp_sendCopies_atomic {self : ChatClient} {groupId : Str}
    {sessionKey encryptedPayload : Bytes} {anySent : Bool} (members : List Str)
    (ht : Tally i h [] False) (hu : Unsent (own i h.2)) :
    env.system.wp (fun _ => True) (fun _ => True) i
      (sendCopies env c self groupId sessionKey encryptedPayload members anySent)
      (fun r h' => ∀ e, r = .error (.std e) → (Unsent (own i h'.2) ↔
        FirstFails env h.1.server self h.1.draws groupId sessionKey encryptedPayload members)) h := by
  induction members generalizing h with
  | nil => exact fun e he => by cases he
  | cons member members ih =>
      refine wp_step fun receiverPublicKey h1 hpem hh1 => ?_
      obtain ⟨ht1, hu1⟩ : Tally i h1 [] False ∧ Unsent (own i h1.2) := by
        rw [hh1]
        exact unsent_act ht hu rfl fun _ _ _ e => by cases e
      have hserver : h1.1.server = h.1.server := by
        rw [hh1]
        rfl
      have hdraws : h1.1.draws = h.1.draws := by
        rw [hh1]
        rfl
      obtain rfl : receiverPublicKey = h.1.server.getPublicKey member := hpem
      rw [FirstFails]
      split
      -- a member that is not registered is passed over
      · rw [← hserver, ← hdraws]
        exact ih ht1 hu1
      · refine wp_step fun n h2 hn hh2 => ?_
        obtain ⟨ht2, hu2⟩ : Tally i h2 [] False ∧ Unsent (own i h2.2) := by
          rw [hh2]
          exact unsent_act ht1 hu1 rfl fun _ _ _ e => by cases e
        obtain rfl : n = h.1.draws := hn.trans hdraws
        clear hh1 hh2
        refine wp_ofExcept_bind (fun message hmessage => ?_) fun x hx => ?_
        · rcases hwire : serialize env.ssl.base64 message with x | wire
          · -- the first copy cannot be serialized
            refine wp_bind.mpr (wp_ofExcept_bind (fun wire hok => ?_) fun x' _ => ?_)
            · rw [hwire] at hok
              cases hok
            -- the first copy cannot be composed
            · refine fun e _ => iff_of_true hu2 fun wire hok => ?_
              rw [hmessage] at hok
              exact nomatch hwire.symm.trans hok
          · refine wp_bind.mpr (wp_mono (fun r h3 hr => ?_) (wp_deliver_passes ht2 hwire))
            rcases r with y | _
            · intro e he
              cases he
              exact absurd rfl (hr.2 e)
            · -- the first copy has been sent
              obtain ⟨m, hm⟩ := hr
              have hcopies : copiesOf i h3 ≠ [] := by
                rw [hm.copies]
                exact List.cons_ne_nil _ _
              refine wp_mono (fun r h4 hcopies4 e _ => ?_) (wp_copies hcopies)
              refine iff_of_false (not_unsent_of_copies hcopies4) fun hall => hall wire ?_
              rw [hmessage]
              exact hwire
        · refine fun e _ => iff_of_true hu2 fun wire hok => ?_
          rw [hx] at hok
          cases hok

/-- The contract of a `sendGroupMessage` that ends by a standard exception. -/
def GroupSendContract (env : Env) (q : Call) (w : World) (r : Except Exn Value)
    (t : List (Entry Eff Notice Exn Call Value World)) : Prop :=
  ∀ groupId plaintext e, q.op = .sendGroupMessage groupId plaintext → r = .error (.std e) →
    (Unsent t ↔ PreparationFails env w q.client groupId plaintext)

theorem wp_sendGroupMessage_atomic {groupId plaintext : Str} (ht : Tally i h [] False)
    (hu : Unsent (own i h.2)) :
    env.system.wp (fun _ => True) (fun _ => True) i (sendGroupMessage env c groupId plaintext)
      (fun r h' => ∀ e, r = .error (.std e) →
        (Unsent (own i h'.2) ↔ PreparationFails env h.1 c groupId plaintext)) h := by
  refine wp_step fun self h1 hself hh1 => ?_
  obtain rfl : self = h.1.clients c := hself
  obtain ⟨ht1, hu1⟩ : Tally i h1 [] False ∧ Unsent (own i h1.2) := by
    rw [hh1]
    exact unsent_act ht hu rfl fun _ _ _ e => by cases e
  split
  · refine wp_step fun members h2 hmembers hh2 => ?_
    obtain ⟨ht2, hu2⟩ : Tally i h2 [] False ∧ Unsent (own i h2.2) := by
      rw [hh2]
      exact unsent_act ht1 hu1 rfl fun _ _ _ e => by cases e
    obtain rfl : members = h.1.server.getGroupMembers groupId := by
      rw [hmembers, hh1]
      rfl
    split
    · exact fun e he => by cases he
    · refine wp_step fun n h3 hn hh3 => ?_
      obtain ⟨ht3, hu3⟩ : Tally i h3 [] False ∧ Unsent (own i h3.2) := by
        rw [hh3]
        exact unsent_act ht2 hu2 rfl fun _ _ _ e => by cases e
      -- the draws of the preparation are those of the state before the call
      obtain rfl : n = h.1.draws := by
        rw [hn, hh2, hh1]
        rfl
      have hserver : h3.1.server = h.1.server := by
        rw [hh3, hh2, hh1]
        rfl
      have hdraws : h3.1.draws = h.1.draws + 2 := by
        rw [hh3, hh2, hh1]
        rfl
      refine wp_ofExcept_bind (fun r hr => ?_) fun x hx => ?_
      · refine wp_mono (fun r' h' hpost e he => ?_) (wp_sendCopies_atomic _ ht3 hu3)
        rw [hpost e he, hserver, hdraws, PreparationFails, hr]
        constructor
        · intro hfirst r' hr'
          cases hr'
          exact hfirst
        · intro hprep
          exact hprep r rfl
      -- the session key or the payload cannot be made, and nothing has been sent
      · refine fun e _ => iff_of_true hu3 fun r hr => ?_
        rw [hx] at hr
        cases hr
  · exact fun e he => by cases he

theorem wp_groupSendContract (q : Call) (hnone : own i h.2 = []) :
    env.system.wp (fun _ => True) (fun _ => True) i (Call.body env q)
      (fun r h' => GroupSendContract env q h.1 r (own i h'.2))
      (env.system.push h i (.called q)) := by
  by_cases hsend : ∃ groupId plaintext, q.op = .sendGroupMessage groupId plaintext
  · obtain ⟨c, op⟩ := q
    obtain ⟨groupId, plaintext, rfl⟩ := hsend
    have hu : Unsent (own i h.2) := by
      rw [hnone]
      exact fun x hx => by cases hx
    refine wp_bind_pure.mpr (wp_mono (fun r h' hr => ?_) (wp_sendGroupMessage_atomic
      (tally_called hnone ⟨c, .sendGroupMessage groupId plaintext⟩) (hu.push ?_)))
    · rintro groupId' plaintext' e hop he
      cases hop
      rcases r with y | b
      · cases he
        exact hr e rfl
      · cases he
    · rintro (⟨m, hm⟩ | ⟨d, fromUser, payload, hd⟩)
      · cases hm
      · cases hd
  · refine wp_mono (fun r h' _ => ?_) wp_trivial
    intro groupId plaintext e hop
    exact absurd ⟨groupId, plaintext, hop⟩ hsend

/-- **When a failed group send has sent nothing.**  In every run, from any world, a call
of `sendGroupMessage` that has ended by a standard exception has stored no copy and
called no receive handler if and only if its preparation fails: the payload cannot be
encrypted, or no copy can be made for the first member that has a key. -/
theorem group_send_atomic_iff (env : Env) (w : World) (ms : List (Move Exn Call))
    {x y : Entry Eff Notice Exn Call Value World} (hx : x ∈ (env.system.run w ms).hist.2)
    (hy : y ∈ (env.system.run w ms).hist.2) (hinst : y.inst = x.inst) {groupId plaintext : Str}
    {e : StdException} (hcall : x.act = .called ⟨c, .sendGroupMessage groupId plaintext⟩)
    (hfail : y.act = .returned (.error (.std e))) :
    Unsent (own x.inst (env.system.run w ms).hist.2) ↔
      PreparationFails env x.before c groupId plaintext := by
  obtain ⟨rest, hown, hrest⟩ := run_accounts env.system (J := fun _ => True)
    (P := GroupSendContract env) (fun _ => trivial)
    (fun q h i _ hnone => wp_groupSendContract q hnone) ms hx hy hinst hcall hfail
  rw [hown, ← hrest groupId plaintext e rfl rfl]
  constructor
  · exact fun hu z hz => hu z (List.mem_cons_of_mem _ hz)
  · intro hu z hz
    rcases List.mem_cons.mp hz with rfl | hz
    · rw [hfail]
      rintro (⟨m, hm⟩ | ⟨d, fromUser, payload, hd⟩)
      · cases hm
      · cases hd
    · exact hu z hz

/-- A server on which Zed is registered, under a text that is no key. -/
def zedsWorld : World :=
  { World.initial Env.names Env.noFiles with
    server := (ChatServer.empty.registerUser (str "zed") (str "hash") (str "no key")).2 }

/-- Alice makes a group with Zed and sends to it; her own observers return. -/
def clubRun : List (Move Exn Call) :=
  [.call ⟨0, .registerOnServer (str "pw")⟩, .call ⟨0, .login (str "pw")⟩,
    .call ⟨0, .createGroup (str "club") [str "zed"]⟩,
    .call ⟨0, .sendGroupMessage (str "group-1-club") (str "hi")⟩, .answer (.ok ())]

/-- The send has ended by an exception when Alice's own copy was stored. -/
theorem clubRun_fails : ∃ x ∈ (Env.reference.system.run zedsWorld clubRun).hist.2,
    ∃ y ∈ (Env.reference.system.run zedsWorld clubRun).hist.2, y.inst = x.inst ∧
      callOf x.act = some ⟨0, .sendGroupMessage (str "group-1-club") (str "hi")⟩ ∧
      failureOf y.act = some (.std (.runtimeError "Failed to parse public key PEM")) ∧
      copiesOf x.inst (Env.reference.system.run zedsWorld clubRun).hist ≠ [] := by
  decide +kernel

theorem group_send_atomic_iff_club : ∃ x ∈ (Env.reference.system.run zedsWorld clubRun).hist.2,
    callOf x.act = some ⟨0, .sendGroupMessage (str "group-1-club") (str "hi")⟩ ∧
      (Unsent (own x.inst (Env.reference.system.run zedsWorld clubRun).hist.2) ↔
        PreparationFails Env.reference x.before 0 (str "group-1-club") (str "hi")) := by
  obtain ⟨x, hx, y, hy, hinst, hcall, hfail, -⟩ := clubRun_fails
  exact ⟨x, hx, hcall, group_send_atomic_iff Env.reference zedsWorld clubRun hx hy hinst
    (called_of_callOf hcall) (returned_of_failureOf hfail)⟩

/-- Alice's copy has been delivered and stored when Zed's key turns out to be none. -/
theorem group_send_halfway : ¬ ∀ (env : Env) w ms, ∀ x ∈ (env.system.run w ms).hist.2,
    ∀ y ∈ (env.system.run w ms).hist.2, y.inst = x.inst → ∀ c groupId plaintext e,
      x.act = .called ⟨c, .sendGroupMessage groupId plaintext⟩ →
      y.act = .returned (.error (.std e)) →
      Unsent (own x.inst (env.system.run w ms).hist.2) := by
  intro h
  obtain ⟨x, hx, y, hy, hinst, hcall, hfail, hcopies⟩ := clubRun_fails
  exact not_unsent_of_copies hcopies (h Env.reference zedsWorld clubRun x hx y hy hinst 0 _ _ _
    (called_of_callOf hcall) (returned_of_failureOf hfail))

end Evlampy
