/-
Evlampy/Servers.lean

Servers that share the key directory.  Every program has a server of its own, in
memory, and all of them keep the key files of their users in one directory, under
the names of the users alone.  A name can be registered once at every server, and
each registration writes the same two files: a later login at an earlier server
takes whatever they hold for the pair on record there (`elsewhere_overwritten`).

What holds is `logged_in_holds_record`: in every interleaving in which each login
finds key files that were last written from its own server and under its own name,
whoever is logged in holds the pair whose public half its server has on record.
The invariant (`Held`) says of every write to a key file that the server it came
from has the matching public key on record.
-/
import Evlampy.Parallel
import Evlampy.Reference

namespace Evlampy

open Cxx Callback Prog System ChatClient

/-! ### Sites -/

/-- The identity of a `ChatServer` object. -/
abbrev ServerId := Nat

/-- Servers, clients, and the files all of them share. -/
structure Site where
  servers : ServerId → ChatServer
  clients : ClientId → ChatClient
  disk : Str → Option Str
  draws : Nat

/-- The site as the clients of one server see it. -/
def Site.world (w : Site) (s : ServerId) : World := ⟨w.servers s, w.clients, w.disk, w.draws⟩

/-- New servers, new clients with the given names, and any files. -/
def Site.initial (names : ClientId → Str) (disk : Str → Option Str) : Site :=
  ⟨fun _ => .empty, fun c => .new (names c), disk, 0⟩

/-- An action at a server. -/
abbrev SiteEff := ServerId × Eff

/-- As for a world. -/
abbrev SiteEff.Res (e : SiteEff) : Type := e.2.Res

/-- The action changes the world of one server; clients and files are shared. -/
def SiteEff.exec (env : Env) (e : SiteEff) (w : Site) : SiteEff.Res e × Site :=
  let r := e.2.exec env (w.world e.1)
  (r.1, ⟨Function.update w.servers e.1 r.2.server, r.2.clients, r.2.disk, r.2.draws⟩)

/-- All clients of all servers; `serverOf` is the server a client was made for. -/
def Env.site (env : Env) (serverOf : ClientId → ServerId) :
    System SiteEff SiteEff.Res Notice Exn Call Value Site where
  exec := SiteEff.exec env
  body q := (q.body env).tagged (serverOf q.client)

/-- What a call at a site can be seen to do. -/
abbrev SiteAct := Act SiteEff Notice Exn Call Value

/-- Such an act, with the site before it. -/
abbrev SiteEntry := Entry SiteEff Notice Exn Call Value Site

/-- A site with the trace that led to it. -/
abbrev SiteHistory := Hist SiteEff Notice Exn Call Value Site

/-- Any interleaving of the calls of the clients, each on a thread of its own. -/
def Env.runSite (env : Env) (serverOf : ClientId → ServerId) (names : ClientId → Str)
    (disk : Str → Option Str) (ms : List (PoolMove Exn Call ClientId)) : SiteHistory :=
  ((env.site serverOf).runPool Call.client (Site.initial names disk) ms).hist

variable {env : Env} {serverOf : ClientId → ServerId} {h h' h'' : SiteHistory} {i j : Nat}
  {c d : ClientId} {s : ServerId} {a : SiteAct} {u : Str}

/-! ### Who wrote a file -/

/-- A file that is opened is written, or read, from its beginning to its end. -/
structure Env.WholeFiles (env : Env) : Prop where
  write : ∀ n path text contents, env.write n path text = some contents → contents = text
  read : ∀ n path contents text, env.read n path contents = some text → contents = some text

/-- The last write to a file that has opened it: from which server, under which path,
and what. -/
def lastWrite (env : Env) (file : Str) : List SiteEntry → Option ((ServerId × Str) × Str)
  | [] => none
  | x :: t =>
      match x.act with
      | .did (s, .file (.write path text)) =>
          if env.locate path = file ∧ (env.write x.before.draws path text).isSome then
            some ((s, path), text)
          else lastWrite env file t
      | _ => lastWrite env file t

/-- A file that is read, and exists, was last written from the same server and under
the same path. -/
def OwnRead (env : Env) (x : SiteEntry) (earlier : List SiteEntry) : Prop :=
  match x.act with
  | .did (s, .file (.read path)) =>
      x.before.disk (env.locate path) = none ∨
        (lastWrite env (env.locate path) earlier).map Prod.fst = some (s, path)
  | _ => True

instance (env : Env) (x : SiteEntry) (earlier : List SiteEntry) :
    Decidable (OwnRead env x earlier) := by
  unfold OwnRead
  split <;> infer_instance

/-- All reads are such. -/
def OwnFiles (env : Env) (t : List SiteEntry) : Prop :=
  ∀ later x earlier, t = later ++ x :: earlier → OwnRead env x earlier

theorem ownFiles_cons {x : SiteEntry} {t : List SiteEntry} :
    OwnFiles env (x :: t) ↔ OwnRead env x t ∧ OwnFiles env t := by
  constructor
  · intro ho
    refine ⟨ho [] x t rfl, fun later y earlier ht => ho (x :: later) y earlier ?_⟩
    rw [ht]
    rfl
  · rintro ⟨hx, ho⟩ later y earlier ht
    rcases later with - | ⟨z, later⟩
    · cases ht
      exact hx
    · exact ho later y earlier (List.cons.inj ht).2

instance OwnFiles.decidable (env : Env) : (t : List SiteEntry) → Decidable (OwnFiles env t)
  | [] => isTrue fun later x earlier ht => by cases later <;> cases ht
  | _ :: t =>
      have := OwnFiles.decidable env t
      decidable_of_iff _ ownFiles_cons.symm

theorem OwnFiles.of_append {new t : List SiteEntry} (ho : OwnFiles env (new ++ t)) :
    OwnFiles env t := by
  intro later x earlier ht
  apply ho (new ++ later) x earlier
  rw [ht, List.append_assoc]

theorem OwnRead.of_read {x : SiteEntry} {t : List SiteEntry} (ho : OwnRead env x t) {path : Str}
    (hx : x.act = .did (s, .file (.read path))) : x.before.disk (env.locate path) = none ∨
      ∃ text, lastWrite env (env.locate path) t = some ((s, path), text) := by
  unfold OwnRead at ho
  rw [hx] at ho
  refine ho.imp_right fun hlast => ?_
  obtain ⟨⟨w, text⟩, hwritten, rfl⟩ := Option.map_eq_some_iff.mp hlast
  exact ⟨text, hwritten⟩

theorem mem_of_lastWrite {file path text : Str} {t : List SiteEntry}
    (hl : lastWrite env file t = some ((s, path), text)) :
    ∃ x ∈ t, x.act = .did (s, .file (.write path text)) := by
  induction t with
  | nil => cases hl
  | cons x t ih =>
      rw [lastWrite] at hl
      split at hl
      · next s' path' text' hact =>
        split at hl
        · cases hl
          exact ⟨x, List.mem_cons_self, hact⟩
        · obtain ⟨y, hy, hrest⟩ := ih hl
          exact ⟨y, List.mem_cons_of_mem _ hy, hrest⟩
      · obtain ⟨y, hy, hrest⟩ := ih hl
        exact ⟨y, List.mem_cons_of_mem _ hy, hrest⟩

/-- The files hold what was last written to them. -/
def Written (env : Env) (h : SiteHistory) : Prop :=
  ∀ file w text, lastWrite env file h.2 = some (w, text) → h.1.disk file = some text

theorem Written.push (hfiles : env.WholeFiles) (hw : Written env h) (i : Nat) (a : SiteAct) :
    Written env ((env.site serverOf).push h i a) := by
  intro file w text hl
  cases a with
  | did e =>
      obtain ⟨s', e⟩ := e
      cases e with
      | file q =>
          cases q with
          | write path text' =>
              replace hl : (if env.locate path = file ∧ (env.write h.1.draws path text').isSome
                then some ((s', path), text') else lastWrite env file h.2) = some (w, text) := hl
              show (FileCall.exec env h.1.draws (.write path text') h.1.disk).2 file = some text
              rcases hwrite : env.write h.1.draws path text' with - | contents
              · -- the file could not be opened
                rw [hwrite, if_neg (fun hopened => by cases hopened.2)] at hl
                simp only [FileCall.exec, hwrite]
                exact hw file w text hl
              · rw [hwrite] at hl
                simp only [FileCall.exec, hwrite]
                split at hl
                · next hopened =>
                  cases hl
                  rw [if_pos hopened.1.symm, hfiles.write _ _ _ _ hwrite]
                · next hopened =>
                  rw [if_neg fun hfile => hopened ⟨hfile.symm, rfl⟩]
                  exact hw file w text hl
          | _ => exact hw file w text hl
      | _ => exact hw file w text hl
  | _ => exact hw file w text hl

/-! ### The invariant -/

/-- The public key a server has on record for a user. -/
def Site.publicKeyOf (w : Site) (s : ServerId) (u : Str) : Option Str := (w.servers s).publicKeyOf u

/-- What may be written to a key file from the server `s`: half of a pair whose
public half `s` has on record. -/
def KeyWrite (env : Env) (w : Site) (s : ServerId) (path text : Str) : Prop :=
  ∀ homeDir, env.home = some homeDir → ∀ u,
    (path = privKeyPath homeDir u →
      ∃ pem, w.publicKeyOf s u = some pem ∧ env.ssl.Generated ⟨pem, text⟩) ∧
    (path = pubKeyPath homeDir u → w.publicKeyOf s u = some text)

/-- A client holds the pair on record. -/
def Site.Holds (env : Env) (serverOf : ClientId → ServerId) (w : Site) (c : ClientId) : Prop :=
  env.ssl.Generated (w.clients c).keyPair ∧
    w.publicKeyOf (serverOf c) (w.clients c).username = some (w.clients c).keyPair.publicKeyPem

/-- A call of the client has just set `loggedIn_`, and not yet `registered_`. -/
def Midway (h : SiteHistory) (c : ClientId) : Prop :=
  ∃ i op s b, IsCall h i ⟨c, op⟩ ∧
    (own i h.2).head? = some ⟨i, .did (s, .assign c (.loggedIn true)), b⟩

/-- What holds in every run: files are written with pairs on record, and who is logged in holds
such a pair, if reads gave what was written. -/
structure Held (env : Env) (serverOf : ClientId → ServerId) (h : SiteHistory) : Prop where
  writes : ∀ x ∈ h.2, ∀ s path text, x.act = .did (s, .file (.write path text)) →
    KeyWrite env h.1 s path text
  inHand : OwnFiles env h.2 → ∀ c, (h.1.clients c).loggedIn = true → h.1.Holds env serverOf c
  settled : ∀ c, (h.1.clients c).loggedIn = true → (h.1.clients c).registered = true ∨ Midway h c

/-- Instance `i` is not midway. -/
def NotMidway (h : SiteHistory) (i : Nat) : Prop :=
  ∀ c s b, (own i h.2).head? ≠ some ⟨i, .did (s, .assign c (.loggedIn true)), b⟩

/-- The trace goes on, and what is on record stays on record. -/
structure Extends (h h' : SiteHistory) : Prop where
  trace : ∃ new, h'.2 = new ++ h.2
  publicKeyOf : ∀ s u pem, h.1.publicKeyOf s u = some pem → h'.1.publicKeyOf s u = some pem

theorem Extends.refl (h : SiteHistory) : Extends h h := ⟨⟨[], rfl⟩, fun _ _ _ => id⟩

theorem Extends.trans (h1 : Extends h h') (h2 : Extends h' h'') : Extends h h'' := by
  obtain ⟨new, hnew⟩ := h1.trace
  obtain ⟨new', hnew'⟩ := h2.trace
  refine ⟨⟨new' ++ new, ?_⟩, fun s u pem hu => h2.publicKeyOf s u pem (h1.publicKeyOf s u pem hu)⟩
  rw [hnew', hnew, List.append_assoc]

theorem Extends.push (h : SiteHistory) (i : Nat) (a : SiteAct) :
    Extends h ((env.site serverOf).push h i a) := by
  refine ⟨⟨[⟨i, a, h.1⟩], rfl⟩, fun s u pem hu => ?_⟩
  cases a with
  | did e =>
      obtain ⟨s', e⟩ := e
      show (Function.update h.1.servers s' _ s).publicKeyOf u = some pem
      rcases eq_or_ne s s' with rfl | hne
      · rw [Function.update_self]
        exact exec_publicKeyOf_of_some env e (w := h.1.world s) hu
      · rw [Function.update_of_ne hne]
        exact hu
  | _ => exact hu

theorem Extends.of_others (ho : (env.site serverOf).Others i h h') : Extends h h' := by
  induction ho with
  | refl => exact .refl h
  | tail _ hstep ih =>
      obtain ⟨j, a, -, rfl⟩ := hstep
      exact ih.trans (.push _ j a)

theorem Extends.ownFiles (hx : Extends h h') (ho : OwnFiles env h'.2) : OwnFiles env h.2 := by
  obtain ⟨new, hnew⟩ := hx.trace
  rw [hnew] at ho
  exact ho.of_append

theorem Extends.isCall (hx : Extends h h') {q : Call} (hc : IsCall h i q) : IsCall h' i q := by
  obtain ⟨new, hnew⟩ := hx.trace
  obtain ⟨x, hmem, hinst, hact⟩ := hc
  refine ⟨x, ?_, hinst, hact⟩
  rw [hnew]
  exact List.mem_append_right _ hmem

theorem KeyWrite.mono (hx : Extends h h') {path text : Str} (hk : KeyWrite env h.1 s path text) :
    KeyWrite env h'.1 s path text := by
  intro homeDir hhome u
  obtain ⟨hpriv, hpub⟩ := hk homeDir hhome u
  refine ⟨fun hpath => ?_, fun hpath => hx.publicKeyOf _ _ _ (hpub hpath)⟩
  obtain ⟨pem, hpem, hgen⟩ := hpriv hpath
  exact ⟨pem, hx.publicKeyOf _ _ _ hpem, hgen⟩

/-! ### Single acts -/

/-- The members that matter for keys. -/
structure SameMembers (me me' : ChatClient) : Prop where
  username : me'.username = me.username
  keyPair : me'.keyPair = me.keyPair
  registered : me'.registered = me.registered
  loggedIn : me'.loggedIn = me.loggedIn

theorem SameMembers.refl (me : ChatClient) : SameMembers me me := ⟨rfl, rfl, rfl, rfl⟩

theorem Site.Holds.mono (hx : Extends h h') (hc : h.1.Holds env serverOf c)
    (hsame : SameMembers (h.1.clients c) (h'.1.clients c)) : h'.1.Holds env serverOf c := by
  unfold Site.Holds
  rw [hsame.keyPair, hsame.username]
  exact ⟨hc.1, hx.publicKeyOf _ _ _ hc.2⟩

theorem Midway.push (hm : Midway h c) (hne : ∀ j s b, (own j h.2).head? =
    some ⟨j, .did (s, .assign c (.loggedIn true)), b⟩ → i ≠ j) (a : SiteAct) :
    Midway ((env.site serverOf).push h i a) c := by
  obtain ⟨j, op, s, b, hcall, hhead⟩ := hm
  refine ⟨j, op, s, b, hcall.push i a, ?_⟩
  rw [System.push, own_cons_ne (hne j s b hhead)]
  exact hhead

theorem NotMidway.ne (hn : NotMidway h i) : ∀ j s b, (own j h.2).head? =
    some ⟨j, .did (s, .assign c (.loggedIn true)), b⟩ → i ≠ j := by
  rintro j s b hhead rfl
  exact hn c s b hhead

/-- What an act does to the writes. -/
theorem Held.writes_push (hI : Held env serverOf h)
    (hwrite : ∀ s path text, a = .did (s, .file (.write path text)) →
      KeyWrite env h.1 s path text) :
    ∀ x ∈ ((env.site serverOf).push h i a).2, ∀ s path text,
      x.act = .did (s, .file (.write path text)) →
        KeyWrite env ((env.site serverOf).push h i a).1 s path text := by
  intro x hx s path text hact
  rcases List.mem_cons.mp hx with rfl | hx
  · exact (hwrite s path text hact).mono (.push h i a)
  · exact (hI.writes x hx s path text hact).mono (.push h i a)

/-- An act that changes no members. -/
theorem Held.push (hI : Held env serverOf h) (hn : NotMidway h i)
    (hsame : ∀ c, SameMembers (h.1.clients c) (((env.site serverOf).push h i a).1.clients c))
    (hwrite : ∀ s path text, a = .did (s, .file (.write path text)) →
      KeyWrite env h.1 s path text) :
    Held env serverOf ((env.site serverOf).push h i a) := by
  have hx : Extends h ((env.site serverOf).push h i a) := .push h i a
  refine ⟨hI.writes_push hwrite, fun ho c hc => ?_, fun c hc => ?_⟩
  · rw [(hsame c).loggedIn] at hc
    exact (hI.inHand (hx.ownFiles ho) c hc).mono hx (hsame c)
  · rw [(hsame c).loggedIn] at hc
    rw [(hsame c).registered]
    exact (hI.settled c hc).imp_right fun hm => hm.push hn.ne a

theorem push_assign_self (u : Update) :
    ((env.site serverOf).push h i (.did (s, .assign c u))).1.clients c = u.apply (h.1.clients c) :=
  World.assign_self (h.1.world s) c u

theorem push_assign_ne {u : Update} (hne : d ≠ c) :
    ((env.site serverOf).push h i (.did (s, .assign c u))).1.clients d = h.1.clients d :=
  World.assign_ne (h.1.world s) hne u

/-- An assignment to a client, and what it does to the others. -/
theorem Held.assign (hI : Held env serverOf h) {u : Update}
    (hne : ∀ d ≠ c, ∀ j s b, (own j h.2).head? =
      some ⟨j, .did (s, .assign d (.loggedIn true)), b⟩ → i ≠ j)
    (hinHand : OwnFiles env h.2 → (u.apply (h.1.clients c)).loggedIn = true →
      ((env.site serverOf).push h i (.did (s, .assign c u))).1.Holds env serverOf c)
    (hsettled : (u.apply (h.1.clients c)).loggedIn = true →
      (u.apply (h.1.clients c)).registered = true ∨
        Midway ((env.site serverOf).push h i (.did (s, .assign c u))) c) :
    Held env serverOf ((env.site serverOf).push h i (.did (s, .assign c u))) := by
  have hx : Extends h ((env.site serverOf).push h i (.did (s, .assign c u))) := .push h i _
  refine ⟨hI.writes_push (fun s path text e => by cases e), fun ho d hd => ?_, fun d hd => ?_⟩
  · rcases eq_or_ne d c with rfl | hdc
    · rw [push_assign_self] at hd
      exact hinHand (hx.ownFiles ho) hd
    · rw [push_assign_ne hdc] at hd
      refine (hI.inHand (hx.ownFiles ho) d hd).mono hx ?_
      rw [push_assign_ne hdc]
      exact .refl _
  · rcases eq_or_ne d c with rfl | hdc
    · rw [push_assign_self] at hd ⊢
      exact hsettled hd
    · rw [push_assign_ne hdc] at hd ⊢
      exact (hI.settled d hd).imp_right fun hm => hm.push (hne d hdc) _

/-! ### Calls -/

/-- What calls may do. -/
abbrev SiteActs (q : Call) (e : SiteEff) : Prop := Footprint q.client q.op e.2

/-- The weakest precondition of a call on the thread of `c`. -/
abbrev sitePre (env : Env) (serverOf : ClientId → ServerId) (c : ClientId) (i : Nat) {α : Type}
    (p : Prog SiteEff SiteEff.Res Notice Exn α) (post : Except Exn α → SiteHistory → Prop)
    (h : SiteHistory) : Prop :=
  pwp (env.site serverOf) Call.client SiteActs (Written env) (Held env serverOf) c i p post h

/-- Instance `i` is a call of `c`, whose members are `me`. -/
structure Mine (i : Nat) (c : ClientId) (me : ChatClient) (h : SiteHistory) : Prop where
  call : ∃ op, IsCall h i ⟨c, op⟩
  members : h.1.clients c = me
  notMidway : NotMidway h i

/-- What calls of other clients do changes no members of `c`. -/
theorem push_clients_of_ne {q : Call} (hq : q.client ≠ c)
    (ha : Allowed SiteActs q a) :
    ((env.site serverOf).push h j a).1.clients c = h.1.clients c := by
  cases a with
  | did e => exact exec_clients_of_footprint (w := h.1.world e.1) hq.symm ha
  | _ => rfl

theorem clients_elsewhere
    (he : Elsewhere (env.site serverOf) Call.client SiteActs (Written env) (Held env serverOf) c i
      h h') :
    h'.1.clients c = h.1.clients c := by
  induction he with
  | refl => rfl
  | tail _ hstep ih =>
      obtain ⟨-, -, j, q, a, -, hq, ha, rfl⟩ := hstep
      exact (push_clients_of_ne hq ha).trans ih

theorem Mine.elsewhere {me : ChatClient} (hm : Mine i c me h)
    (he : Elsewhere (env.site serverOf) Call.client SiteActs (Written env) (Held env serverOf) c i
      h h') :
    Mine i c me h' := by
  have ho := he.meanwhile.others
  obtain ⟨⟨op, hcall⟩, hmembers, hnot⟩ := hm
  refine ⟨⟨op, (Extends.of_others ho).isCall hcall⟩, (clients_elsewhere he).trans hmembers, ?_⟩
  intro d s b
  rw [ho.own_eq]
  exact hnot d s b

theorem notMidway_push_self (ha : ∀ c s, a ≠ .did (s, .assign c (.loggedIn true))) :
    NotMidway ((env.site serverOf).push h i a) i := by
  intro c s b hhead
  rw [System.push, own_cons_self] at hhead
  cases hhead
  exact ha c s rfl

variable {α : Type} {post : Except Exn α → SiteHistory → Prop} {me : ChatClient}

/-- One action, and then the rest. -/
theorem sitePre_step {e : Eff} {f : e.Res → Code α} (hm : Mine i c me h)
    (k : ∀ h' h'', Written env h' → Held env serverOf h' → Mine i c me h' → Extends h h' →
      h'' = (env.site serverOf).push h' i (.did (s, e)) →
      Held env serverOf h'' ∧
        sitePre env serverOf c i ((f (e.exec env (h'.1.world s)).1).tagged s) post h'') :
    sitePre env serverOf c i (((Prog.act e : Code e.Res) >>= f).tagged s) post h :=
  fun h' hJ hI he => k h' _ hJ hI (hm.elsewhere he) (.of_others he.meanwhile.others) rfl

/-- The actions that assign nothing and write no file. -/
def Reads : Eff → Prop
  | .assign .. => False
  | .file (.write ..) => False
  | _ => True

theorem clients_of_reads {e : Eff} (he : Reads e) (w : World) :
    (e.exec env w).2.clients = w.clients := by
  cases e with
  | assign d u => exact he.elim
  | _ => rfl

theorem sitePre_reads {e : Eff} {f : e.Res → Code α} (he : Reads e) (hm : Mine i c me h)
    (k : ∀ h' h'', Written env h' → Held env serverOf h' → Mine i c me h' → Extends h h' →
      h'' = (env.site serverOf).push h' i (.did (s, e)) → Mine i c me h'' → Extends h h'' →
      sitePre env serverOf c i ((f (e.exec env (h'.1.world s)).1).tagged s) post h'') :
    sitePre env serverOf c i (((Prog.act e : Code e.Res) >>= f).tagged s) post h := by
  refine sitePre_step hm fun h' h'' hJ hI hm' hx hh'' => ?_
  subst hh''
  have hsame : ((env.site serverOf).push h' i (.did (s, e))).1.clients = h'.1.clients :=
    clients_of_reads he (h'.1.world s)
  obtain ⟨⟨op, hcall⟩, hmembers, hnot⟩ := hm'
  refine ⟨hI.push hnot (fun d => ?_) (fun s' path text heq => ?_),
    k h' _ hJ hI ⟨⟨op, hcall⟩, hmembers, hnot⟩ hx rfl ⟨⟨op, hcall.push i _⟩, ?_, ?_⟩
      (hx.trans (.push h' i _))⟩
  · rw [hsame]
    exact .refl _
  · cases heq
    exact he.elim
  · rw [hsame]
    exact hmembers
  · refine notMidway_push_self fun d s' heq => ?_
    cases heq
    exact he.elim

/-- An assignment to a client that is logged out, and stays so. -/
theorem sitePre_assign {u : Update} {f : Unit → Code α} (hm : Mine i c me h)
    (hout : (u.apply me).loggedIn = false)
    (k : ∀ h'', Mine i c (u.apply me) h'' → Extends h h'' →
      sitePre env serverOf c i ((f ()).tagged s) post h'') :
    sitePre env serverOf c i (((Prog.act (Eff.assign c u) : Code Unit) >>= f).tagged s) post h := by
  refine sitePre_step hm fun h' h'' hJ hI hm' hx hh'' => ?_
  subst hh''
  obtain ⟨⟨op, hcall⟩, rfl, hnot⟩ := hm'
  have hno : ∀ {P : Prop}, (u.apply (h'.1.clients c)).loggedIn = true → P := by
    intro P hyes
    rw [hout] at hyes
    cases hyes
  refine ⟨hI.assign (fun d _ => hnot.ne) (fun _ => hno) hno, k _ ⟨⟨op, hcall.push i _⟩, ?_, ?_⟩
    (hx.trans (.push h' i _))⟩
  · exact push_assign_self u
  · refine notMidway_push_self fun d s' heq => ?_
    cases heq
    cases hout

/-- A write to a key file. -/
theorem sitePre_write {path text : Str} {f : Unit → Code α} (hm : Mine i c me h)
    (hwrite : ∀ h', Extends h h' → KeyWrite env h'.1 s path text)
    (k : ∀ h'', Mine i c me h'' → Extends h h'' →
      sitePre env serverOf c i ((f ()).tagged s) post h'') :
    sitePre env serverOf c i
      (((Prog.act (Eff.file (.write path text)) : Code Unit) >>= f).tagged s) post h := by
  refine sitePre_step hm fun h' h'' hJ hI hm' hx hh'' => ?_
  subst hh''
  obtain ⟨⟨op, hcall⟩, hmembers, hnot⟩ := hm'
  refine ⟨hI.push hnot (fun d => .refl _) (fun s' path' text' heq => ?_),
    k _ ⟨⟨op, hcall.push i _⟩, hmembers, ?_⟩ (hx.trans (.push h' i _))⟩
  · cases heq
    exact hwrite h' hx
  · exact notMidway_push_self fun d s' heq => by cases heq

theorem sitePre_ofExcept_bind {x : Except Exn α} {β : Type} {f : α → Code β}
    {post : Except Exn β → SiteHistory → Prop}
    (hok : ∀ a, x = .ok a → sitePre env serverOf c i ((f a).tagged s) post h)
    (herr : ∀ e, x = .error e → post (.error e) h) :
    sitePre env serverOf c i (((Prog.ofExcept x : Code α) >>= f).tagged s) post h := by
  rcases x with e | a
  · exact herr e rfl
  · exact hok a rfl

theorem sitePre_bind {β : Type} {p : Code α} {f : α → Code β}
    {post : Except Exn β → SiteHistory → Prop}
    (hp : sitePre env serverOf c i (p.tagged s) (fun r h => match r with
      | .ok a => sitePre env serverOf c i ((f a).tagged s) post h
      | .error x => post (.error x) h) h) :
    sitePre env serverOf c i ((p >>= f).tagged s) post h := by
  show pwp _ _ _ _ _ _ _ ((p.bind f).tagged s) _ _
  rw [tagged_bind]
  refine pwp_bind (pwp_mono (fun r h' hr => ?_) hp)
  rcases r with x | a
  · exact hr
  · exact hr

/-! ### Registration -/

/-- Saving a pair whose public half is on record. -/
theorem sitePre_saveKeyPairToDisk (hm : Mine i c me h) (hgen : env.ssl.Generated me.keyPair)
    (hrecord : h.1.publicKeyOf s me.username = some me.keyPair.publicKeyPem) :
    sitePre env serverOf c i ((saveKeyPairToDisk env c).tagged s) (fun _ h' => NotMidway h' i)
      h := by
  unfold saveKeyPairToDisk
  cases hhome : env.home with
  | none => exact hm.notMidway
  | some homeDir =>
      refine sitePre_reads trivial hm fun h0 h1 _ _ _ _ _ hm1 hx1 => ?_
      split
      · refine sitePre_reads trivial hm1 fun h2 h3 _ _ hm2 _ _ hm3 hx3 => ?_
        have hself : (Eff.exec env (Eff.get c) (h2.1.world s)).1 = me := hm2.members
        rw [hself]
        -- no private key file is a public one
        refine sitePre_write hm3 (fun h' hx => ?_) fun h4 hm4 hx4 => ?_
        · intro homeDir' hhome' u
          rw [hhome] at hhome'
          cases hhome'
          refine ⟨fun hpath => ?_, fun hpath => absurd hpath (privKeyPath_ne_pubKeyPath _ _ _)⟩
          rw [← privKeyPath_injective _ hpath]
          exact ⟨_, ((hx1.trans hx3).trans hx).publicKeyOf _ _ _ hrecord, hgen⟩
        · refine sitePre_write (f := pure) hm4 (fun h' hx => ?_) fun _ hm5 _ => hm5.notMidway
          intro homeDir' hhome' u
          rw [hhome] at hhome'
          cases hhome'
          refine ⟨fun hpath => absurd hpath.symm (privKeyPath_ne_pubKeyPath _ _ _), fun hpath => ?_⟩
          rw [← pubKeyPath_injective _ hpath]
          exact (((hx1.trans hx3).trans hx4).trans hx).publicKeyOf _ _ _ hrecord
      · exact hm1.notMidway

/-- A name that could be registered is on record. -/
theorem publicKeyOf_push_registerUser {hash pem : Str}
    (hyes : ((h.1.servers s).registerUser u hash pem).1 = true) :
    ((env.site serverOf).push h i (.did (s, .server (.registerUser u hash pem)))).1.publicKeyOf s u
      = some pem := by
  show (Function.update h.1.servers s _ s).publicKeyOf u = some pem
  rw [Function.update_self]
  show (((h.1.servers s).registerUser u hash pem).2.users.lookup u).map _ = some pem
  rw [lookup_registerUser_of_true hyes]
  rfl

theorem sitePre_registerOnServer (hm : Mine i c me h)
    (hsettled : me.loggedIn = true → me.registered = true) (rawPassword : Str) :
    sitePre env serverOf c i ((registerOnServer env c rawPassword).tagged s)
      (fun _ h' => NotMidway h' i) h := by
  refine sitePre_reads trivial hm fun h0 h1 _ _ hm0 _ _ hm1 _ => ?_
  have hself : (Eff.exec env (Eff.get c) (h0.1.world s)).1 = me := hm0.members
  rw [hself]
  split
  · exact hm1.notMidway
  · next hreg =>
    have hout : me.loggedIn = false := by
      by_contra hlog
      exact hreg (hsettled (Bool.eq_true_of_not_eq_false hlog))
    refine sitePre_reads trivial hm1 fun _ h2 _ _ _ _ _ hm2 _ => ?_
    refine sitePre_ofExcept_bind (fun keyPair hgen => ?_) fun _ _ => hm2.notMidway
    refine sitePre_assign hm2 hout fun h3 hm3 _ => ?_
    refine sitePre_ofExcept_bind (fun passwordHash _ => ?_) fun _ _ => hm3.notMidway
    refine sitePre_reads trivial hm3 fun h4 h5 _ _ hm4 _ hh5 hm5 _ => ?_
    refine sitePre_assign hm5 hout fun h6 hm6 hx6 => ?_
    split
    · next hyes =>
      refine sitePre_bind (pwp_mono (fun r _ hr => ?_) (sitePre_saveKeyPairToDisk hm6 ⟨_, hgen⟩ ?_))
      · rcases r with x | _ <;> exact hr
      · apply hx6.publicKeyOf
        rw [hh5]
        exact publicKeyOf_push_registerUser hyes
    · exact hm6.notMidway

/-! ### Logging in -/

/-- A file that is read, in a run in which files are read by those who wrote them. -/
theorem keyWrite_of_read (hfiles : env.WholeFiles) (hJ : Written env h)
    (hI : Held env serverOf h) {path text : Str}
    (hread : (Eff.exec env (.file (.read path)) (h.1.world s)).1 = some text)
    (ho : OwnFiles env ((env.site serverOf).push h i (.did (s, .file (.read path)))).2) :
    KeyWrite env h.1 s path text := by
  have hcontents : h.1.disk (env.locate path) = some text := hfiles.read _ _ _ _ hread
  rcases (ownFiles_cons.mp ho).1.of_read rfl with hnone | ⟨text', hlast⟩
  · cases hcontents.symm.trans hnone
  · cases hcontents.symm.trans (hJ _ _ _ hlast)
    obtain ⟨x, hx, hact⟩ := mem_of_lastWrite hlast
    exact hI.writes x hx s path text hact

/-- A client that has loaded its keys, and is not logged in yet. -/
structure LoadedFrom (env : Env) (s : ServerId) (c : ClientId) (i : Nat) (h : SiteHistory)
    (me : ChatClient) : Prop where
  mine : Mine i c me h
  out : me.loggedIn = false
  keys : OwnFiles env h.2 → env.ssl.Generated me.keyPair ∧
    h.1.publicKeyOf s me.username = some me.keyPair.publicKeyPem

theorem sitePre_loadKeyPairFromDisk (hfiles : env.WholeFiles) (hm : Mine i c me h)
    (hout : me.loggedIn = false) :
    sitePre env serverOf c i ((loadKeyPairFromDisk env c).tagged s)
      (fun r h' => NotMidway h' i ∧
        (r = .ok true → ∃ me', LoadedFrom env s c i h' me' ∧ me'.username = me.username)) h := by
  unfold loadKeyPairFromDisk
  cases hhome : env.home with
  | none => exact ⟨hm.notMidway, fun e => by cases e⟩
  | some homeDir =>
      refine sitePre_reads trivial hm fun h0 h1 _ _ hm0 _ _ hm1 _ => ?_
      have hself : (Eff.exec env (Eff.get c) (h0.1.world s)).1 = me := hm0.members
      rw [hself]
      refine sitePre_reads trivial hm1 fun h2 h3 hJ2 hI2 _ _ hh3 hm3 hx3 => ?_
      rcases hpriv : (Eff.exec env (.file (.read (privKeyPath homeDir me.username)))
          (h2.1.world s)).1 with - | privateKeyPem
      · exact ⟨hm3.notMidway, fun e => by cases e⟩
      · -- what the private key file says
        have hprivate : OwnFiles env h3.2 → ∃ pem, h3.1.publicKeyOf s me.username = some pem ∧
            env.ssl.Generated ⟨pem, privateKeyPem⟩ := by
          intro ho
          rw [hh3] at ho ⊢
          have hwrite := keyWrite_of_read hfiles hJ2 hI2 hpriv ho
          exact ((hwrite.mono (.push h2 i _)) homeDir hhome me.username).1 rfl
        refine sitePre_assign hm3 hout fun h4 hm4 hx4 => ?_
        refine sitePre_reads trivial hm4 fun h5 h6 hJ5 hI5 _ hx5 hh6 hm6 hx6 => ?_
        rcases hpub : (Eff.exec env (.file (.read (pubKeyPath homeDir me.username)))
            (h5.1.world s)).1 with - | publicKeyPem
        · exact ⟨hm6.notMidway, fun e => by cases e⟩
        · have hpublic : OwnFiles env h6.2 →
              h6.1.publicKeyOf s me.username = some publicKeyPem := by
            intro ho
            rw [hh6] at ho ⊢
            have hwrite := keyWrite_of_read hfiles hJ5 hI5 hpub ho
            exact ((hwrite.mono (.push h5 i _)) homeDir hhome me.username).2 rfl
          refine sitePre_assign hm6 hout fun h7 hm7 hx7 => ?_
          refine ⟨hm7.notMidway, fun _ => ⟨_, ⟨hm7, hout, fun ho => ?_⟩, rfl⟩⟩
          have hrecord := hx7.publicKeyOf _ _ _ (hpublic (hx7.ownFiles ho))
          have hx37 : Extends h3 h7 := (hx4.trans hx6).trans hx7
          obtain ⟨pem, hpem, hgen⟩ := hprivate (hx37.ownFiles ho)
          -- both halves are of the pair on record
          have heq := (hx37.publicKeyOf _ _ _ hpem).symm.trans hrecord
          cases heq
          exact ⟨hgen, hrecord⟩

theorem LoadedFrom.mono (hl : LoadedFrom env s c i h me) (hx : Extends h h') (hm : Mine i c me h') :
    LoadedFrom env s c i h' me :=
  ⟨hm, hl.out, fun ho =>
    ⟨(hl.keys (hx.ownFiles ho)).1, hx.publicKeyOf _ _ _ (hl.keys (hx.ownFiles ho)).2⟩⟩

/-- Connecting changes the transport only. -/
theorem sitePre_connect (hl : LoadedFrom env s c i h me) (name : Str) :
    sitePre env serverOf c i ((connect c name).tagged s)
      (fun _ h' => ∃ me', LoadedFrom env s c i h' me' ∧ me'.username = me.username) h := by
  refine sitePre_reads trivial hl.mine fun h0 h1 _ _ _ _ _ hm1 hx1 => ?_
  split
  · exact ⟨me, hl.mono hx1 hm1, rfl⟩
  · refine sitePre_reads trivial hm1 fun h2 h3 _ _ _ _ _ hm3 hx3 => ?_
    split
    · refine sitePre_assign hm3 hl.out fun h4 hm4 hx4 => ?_
      have hx : Extends h h4 := (hx1.trans hx3).trans hx4
      refine ⟨_, ⟨hm4, hl.out, fun ho => ?_⟩, rfl⟩
      obtain ⟨hgen, hrecord⟩ := hl.keys (hx.ownFiles ho)
      exact ⟨hgen, hx.publicKeyOf _ _ _ hrecord⟩
    · exact ⟨me, hl.mono (hx1.trans hx3) hm3, rfl⟩

/-- Entering: `loggedIn_` is set, and then `registered_`. -/
theorem sitePre_enter (hl : LoadedFrom env (serverOf c) c i h me) :
    sitePre env serverOf c i ((do
      Code.assign c (.loggedIn true)
      Code.assign c (.registered true)
      return true : Code Bool).tagged s) (fun _ h' => NotMidway h' i) h := by
  refine sitePre_step hl.mine fun h1 h2 _ hI1 hm1 hx1 hh2 => ?_
  obtain ⟨⟨op, hcall⟩, hmembers, hnot⟩ := hm1
  have hclient : h2.1.clients c = { me with loggedIn := true } := by
    rw [hh2, push_assign_self, hmembers]
    rfl
  have hhead : (own i h2.2).head? = some ⟨i, .did (s, .assign c (.loggedIn true)), h1.1⟩ := by
    rw [hh2, System.push, own_cons_self]
    rfl
  have hx2 : Extends h h2 := by
    rw [hh2]
    exact hx1.trans (.push h1 i _)
  have hI2 : Held env serverOf h2 := by
    have hcall2 : IsCall h2 i ⟨c, op⟩ := by
      rw [hh2]
      exact hcall.push i _
    have hkeys : OwnFiles env h1.2 → h2.1.Holds env serverOf c := by
      intro ho
      obtain ⟨hgen, hrecord⟩ := hl.keys (hx1.ownFiles ho)
      rw [Site.Holds, hclient]
      exact ⟨hgen, hx2.publicKeyOf _ _ _ hrecord⟩
    have hmid : Midway h2 c := ⟨i, op, s, h1.1, hcall2, hhead⟩
    subst hh2
    exact hI1.assign (fun d _ => hnot.ne) (fun ho _ => hkeys ho) fun _ => Or.inr hmid
  refine ⟨hI2, fun h3 _ hI3 he => ⟨?_, notMidway_push_self fun d s e => by cases e⟩⟩
  have hclient3 := (clients_elsewhere he).trans hclient
  refine hI3.assign (fun d hd j s' b hj hij => ?_) (fun ho _ => ?_) fun _ => Or.inl rfl
  · -- what instance `i` has done last is about `c`
    subst hij
    rw [he.meanwhile.others.own_eq, hhead] at hj
    cases hj
    exact hd rfl
  · have hholds := hI3.inHand ho c (by rw [hclient3])
    refine ⟨?_, ?_⟩
    · rw [push_assign_self]
      exact hholds.1
    · rw [push_assign_self]
      exact (Extends.push h3 i _).publicKeyOf _ _ _ hholds.2

theorem sitePre_login (hfiles : env.WholeFiles) (hm : Mine i c me h) (rawPassword : Str) :
    sitePre env serverOf c i ((login env c rawPassword).tagged (serverOf c))
      (fun _ h' => NotMidway h' i) h := by
  refine sitePre_reads trivial hm fun h0 h1 _ _ hm0 _ _ hm1 _ => ?_
  have hself : (Eff.exec env (Eff.get c) (h0.1.world (serverOf c))).1 = me := hm0.members
  rw [hself]
  split
  · exact hm1.notMidway
  · next hlog =>
    have hout : me.loggedIn = false := Bool.eq_false_iff.mpr hlog
    refine sitePre_reads trivial hm1 fun _ h2 _ _ _ _ _ hm2 _ => ?_
    refine sitePre_ofExcept_bind (fun passwordHash _ => ?_) fun _ _ => hm2.notMidway
    refine sitePre_reads trivial hm2 fun _ h3 _ _ _ _ _ hm3 _ => ?_
    split
    · refine sitePre_bind (pwp_mono (fun r h4 hr => ?_)
        (sitePre_loadKeyPairFromDisk hfiles hm3 hout))
      rcases r with x | loaded
      · exact hr.1
      · cases loaded with
        | false => exact hr.1
        | true =>
            obtain ⟨me', hl, -⟩ := hr.2 rfl
            refine sitePre_bind (pwp_mono (fun r h5 hr => ?_) (sitePre_connect hl _))
            obtain ⟨me'', hl', -⟩ := hr
            rcases r with x | connected
            · exact hl'.mine.notMidway
            · cases connected with
              | false => exact sitePre_assign hl'.mine rfl fun _ hm6 _ => hm6.notMidway
              | true => exact sitePre_enter hl'
    · exact hm3.notMidway

/-! ### The other calls -/

theorem sitePre_logout (hm : Mine i c me h) :
    sitePre env serverOf c i ((logout c).tagged s) (fun _ h' => NotMidway h' i) h := by
  have hdisconnect : sitePre env serverOf c i ((disconnect c).tagged s)
      (fun _ h' => ∃ me', Mine i c me' h') h := by
    refine sitePre_reads trivial hm fun _ h1 _ _ _ _ _ hm1 _ => ?_
    split
    · refine sitePre_reads trivial hm1 fun _ h2 _ _ _ _ _ hm2 _ => ?_
      refine sitePre_step (f := pure) hm2 fun h3 h4 _ hI3 hm3 _ hh4 => ?_
      subst hh4
      obtain ⟨⟨op, hcall⟩, rfl, hnot⟩ := hm3
      refine ⟨hI3.push hnot (fun d => ?_) (fun s' path text e => by cases e), _,
        ⟨op, hcall.push i _⟩, rfl, notMidway_push_self fun d s' e => by cases e⟩
      rcases eq_or_ne d c with rfl | hne
      · rw [push_assign_self]
        exact ⟨rfl, rfl, rfl, rfl⟩
      · rw [push_assign_ne hne]
        exact .refl _
    · exact ⟨me, hm1⟩
  refine sitePre_bind (pwp_mono (fun r h1 hr => ?_) hdisconnect)
  obtain ⟨me', hm1⟩ := hr
  rcases r with x | _
  · exact hm1.notMidway
  · exact sitePre_assign (f := pure) hm1 rfl fun _ hm2 _ => hm2.notMidway

/-- The other calls assign nothing and write no file. -/
theorem reads_of_footprint {op : Op} {e : Eff} (hregister : ∀ p, op ≠ .registerOnServer p)
    (hlogin : ∀ p, op ≠ .login p) (hlogout : op ≠ .logout) (he : Footprint c op e) : Reads e := by
  cases op with
  | registerOnServer p => exact absurd rfl (hregister p)
  | login p => exact absurd rfl (hlogin p)
  | logout => exact absurd rfl hlogout
  | _ =>
      cases e with
      | file q => exact he.elim
      | assign d u => exact he.elim
      | _ => trivial

/-- Every call keeps the invariant. -/
theorem sitePre_body (hfiles : env.WholeFiles) {op : Op} (hm : Mine i c me h)
    (hsettled : me.loggedIn = true → me.registered = true) :
    sitePre env serverOf c i ((Call.body env ⟨c, op⟩).tagged (serverOf c))
      (fun _ h' => NotMidway h' i) h := by
  -- the value a call returns plays no part
  have hvalue : ∀ {α : Type} {p : Code α} {f : α → Value},
      sitePre env serverOf c i (p.tagged (serverOf c)) (fun _ h' => NotMidway h' i) h →
      sitePre env serverOf c i ((p >>= fun a => (pure (f a) : Code Value)).tagged (serverOf c))
        (fun _ h' => NotMidway h' i) h := by
    intro α p f hp
    refine sitePre_bind (pwp_mono (fun r h' hr => ?_) hp)
    rcases r with x | a <;> exact hr
  by_cases hregister : ∃ p, op = .registerOnServer p
  · obtain ⟨p, rfl⟩ := hregister
    exact hvalue (sitePre_registerOnServer hm hsettled p)
  · by_cases hlogin : ∃ p, op = .login p
    · obtain ⟨p, rfl⟩ := hlogin
      exact hvalue (sitePre_login hfiles hm p)
    · by_cases hlogout : op = .logout
      · subst hlogout
        exact hvalue (sitePre_logout hm)
      -- all other calls assign neither the login nor the registration
      · have hacts : (Call.body env ⟨c, op⟩).AllActs Reads fun _ => True :=
          (body_allActs env ⟨c, op⟩).mono (fun e he => reads_of_footprint
            (fun p hp => hregister ⟨p, hp⟩) (fun p hp => hlogin ⟨p, hp⟩) hlogout he)
            fun _ _ => trivial
        refine pwp_of_allActs (K := fun h => NotMidway h i) (S := fun e => Reads e.2) ?_ ?_
          hacts.tagged hm.notMidway
        · intro h1 h2 hmean hn d s b
          rw [hmean.others.own_eq]
          exact hn d s b
        · intro h1 a _ hI1 hn ha _ hcalled
          have hassign : ∀ d s u, a ≠ .did (s, .assign d u) := by
            rintro d s u rfl
            exact ha _ rfl
          refine ⟨hI1.push hn (fun d => ?_) (fun s path text e => ?_),
            notMidway_push_self fun d s => hassign d s _⟩
          · cases a with
            | did e =>
                have hclients : ((env.site serverOf).push h1 i (.did e)).1.clients = h1.1.clients :=
                  clients_of_reads (ha e rfl) (h1.1.world e.1)
                rw [hclients]
                exact .refl _
            | _ => exact .refl _
          · subst e
            exact (ha _ rfl).elim

/-! ### Runs -/

theorem site_body_allActs (env : Env) (serverOf : ClientId → ServerId) (q : Call) :
    ((env.site serverOf).body q).AllActs (SiteActs q) fun _ => True :=
  ((body_allActs env q).mono (fun _ he => he) fun _ _ => trivial).tagged

theorem written_runSite (hfiles : env.WholeFiles) (serverOf : ClientId → ServerId)
    (names : ClientId → Str) (disk : Str → Option Str) (ms : List (PoolMove Exn Call ClientId)) :
    Written env (env.runSite serverOf names disk ms) := by
  refine pool_keeps (env.site serverOf) Call.client (site_body_allActs env serverOf) ?_
    (fun q h i a hw _ => hw.push hfiles i a) ms
  intro file s text hl
  cases hl

theorem held_runSite (hfiles : env.WholeFiles) (serverOf : ClientId → ServerId)
    (names : ClientId → Str) (disk : Str → Option Str) (ms : List (PoolMove Exn Call ClientId)) :
    Held env serverOf (env.runSite serverOf names disk ms) := by
  refine pool_invariant (env.site serverOf) Call.client (J := Written env)
    (I := Held env serverOf) (site_body_allActs env serverOf)
    (written_runSite hfiles serverOf names disk) ?_ ?_ ms
  · refine ⟨(fun x hx => nomatch hx), fun _ c hc => ?_, fun c hc => ?_⟩
    · cases hc
    · cases hc
  · intro q h i _ hI hlt hidle
    obtain ⟨c, op⟩ := q
    have hn : NotMidway h i := by
      intro d s b hhead
      have hmem := mem_own.mp (List.mem_of_mem_head? hhead)
      exact Nat.lt_irrefl _ (hlt _ hmem.1)
    have hI' : Held env serverOf ((env.site serverOf).push h i (.called ⟨c, op⟩)) := by
      refine hI.push hn (fun d => .refl _) fun s path text e => ?_
      cases e
    have hm : Mine i c (h.1.clients c) ((env.site serverOf).push h i (.called ⟨c, op⟩)) := by
      refine ⟨⟨op, _, List.mem_cons_self, rfl, rfl⟩, rfl, notMidway_push_self fun d s e => ?_⟩
      cases e
    refine ⟨hI', pwp_mono (fun r h' hn' h'' _ hI'' he => ?_) (sitePre_body hfiles hm ?_)⟩
    · refine hI''.push (fun d s b => ?_) (fun d => .refl _) fun s path text e => by cases e
      rw [he.meanwhile.others.own_eq]
      exact hn' d s b
    · intro hlog
      refine (hI.settled c hlog).resolve_right ?_
      -- the thread is idle, so none of its calls is midway
      rintro ⟨j, op', s, b, hcall, hhead⟩
      obtain ⟨a, b', hhead', ha⟩ := hidle j ⟨c, op'⟩ hcall rfl
      rw [hhead] at hhead'
      cases hhead'
      rcases ha with ⟨r, e⟩ | ⟨n, e⟩ <;> cases e

/-- The client holds the pair whose public half its server advertises. -/
structure Site.HoldsAdvertised (env : Env) (serverOf : ClientId → ServerId) (w : Site)
    (c : ClientId) : Prop where
  publicKey : (w.clients c).keyPair.publicKeyPem
    = (w.servers (serverOf c)).getPublicKey (w.clients c).username
  matching : env.ssl.Generated (w.clients c).keyPair

/-- **Logged in clients hold the pair on record**, in every state of every
interleaving in which the key files that are read were last written from the server
of the reader and under the path they are read under. -/
theorem logged_in_holds_record (env : Env) (hfiles : env.WholeFiles)
    (serverOf : ClientId → ServerId) (names : ClientId → Str) (disk : Str → Option Str)
    (ms : List (PoolMove Exn Call ClientId))
    (ho : OwnFiles env (env.runSite serverOf names disk ms).2) (c : ClientId)
    (hc : ((env.runSite serverOf names disk ms).1.clients c).loggedIn = true) :
    (env.runSite serverOf names disk ms).1.HoldsAdvertised env serverOf c := by
  obtain ⟨hgen, hrecord⟩ := (held_runSite hfiles serverOf names disk ms).inHand ho c hc
  refine ⟨?_, hgen⟩
  obtain ⟨record, hlookup, hpem⟩ := Option.map_eq_some_iff.mp hrecord
  rw [← hpem, ChatServer.getPublicKey, hlookup]

/-- Every client has a server of its own, and all are called Alice. -/
def alices : ClientId → Str := fun _ => str "alice"

/-- A call on its own, from its beginning to its end. -/
def alone (q : Call) : List (PoolMove Exn Call ClientId) :=
  .call q :: List.replicate 16 (.go q.client)

/-- Alice registers and logs in at one server, and then at another one. -/
def movingOn : List (PoolMove Exn Call ClientId) :=
  alone ⟨0, .registerOnServer (str "pw")⟩ ++ alone ⟨0, .login (str "pw")⟩ ++
    alone ⟨1, .registerOnServer (str "pw")⟩ ++ alone ⟨1, .login (str "pw")⟩

/-- At each she holds what that server has on record. -/
theorem logged_in_holds_record_alice :
    (Env.reference.runSite id alices Env.noFiles movingOn).1.HoldsAdvertised Env.reference id 0 ∧
      (Env.reference.runSite id alices Env.noFiles movingOn).1.HoldsAdvertised Env.reference id
        1 := by
  have hrun := logged_in_holds_record Env.reference
    ⟨fun _ _ _ _ e => (Option.some.inj e).symm, fun _ _ _ _ e => e⟩ id alices Env.noFiles movingOn
    (by decide +kernel)
  exact ⟨hrun 0 (by decide +kernel), hrun 1 (by decide +kernel)⟩

/-- Registered at two servers, she logs in at the first, and loads the pair of the
second. -/
theorem elsewhere_overwritten : ¬ ∀ (ms : List (PoolMove Exn Call ClientId)) (c : ClientId),
    ((Env.reference.runSite id alices Env.noFiles ms).1.clients c).loggedIn = true →
      (Env.reference.runSite id alices Env.noFiles ms).1.HoldsAdvertised Env.reference id c := by
  intro h
  have hpem := (h (alone ⟨0, .registerOnServer (str "pw")⟩ ++
    alone ⟨1, .registerOnServer (str "pw")⟩ ++ alone ⟨0, .login (str "pw")⟩) 0
    (by decide +kernel)).publicKey
  revert hpem
  decide +kernel

end Evlampy
