/-
Evlampy/KeyStore.lean

The key store.  The key files of a user are found by a path the user's name is
pasted into, and `registerUser` accepts every text as a name.  A name with
slashes can lead elsewhere: out of the key directory, or back into it to the
files of another user.  `keysApart_iff` says for which pairs of names the files
of the first are in the key directory and safe from the registration of the
second; for names without slashes that is the case (`apart_of_plain`).

Where a path leads is read off its text: a `..` takes back the component before
it, as if that were a directory and no link.
-/
import Evlampy.Posix
import Evlampy.Registration
import Mathlib.Logic.Equiv.List

namespace Evlampy

open Cxx Callback Prog System ChatServer ChatClient Posix

/-! ### Files and paths -/

/-- The files are those of a POSIX system with the working directory `cwd`: two
paths lead to the same file if they lead to the same place, and a path that can
be no file cannot be written to. -/
structure Env.PosixFiles (env : Env) (cwd : Place) : Prop where
  locate : ∀ p q place, file cwd p = some place →
    (env.locate p = env.locate q ↔ file cwd q = some place)
  write : ∀ n p text, file cwd p = none → env.write n p text = none

/-- What is pasted behind a name. -/
def keySuffixes : List Str := [str ".priv.pem", str ".pub.pem"]

/-- The paths of the key files of a user. -/
def keyPaths (homeDir u : Str) : List Str := [privKeyPath homeDir u, pubKeyPath homeDir u]

theorem mem_keyPaths {homeDir u path : Str} : path ∈ keyPaths homeDir u ↔
    ∃ suffix ∈ keySuffixes, path = keysDir homeDir ++ slash :: (u ++ suffix) := by
  have happend : ∀ suffix : Str, keysDir homeDir ++ str "/" ++ u ++ suffix
      = keysDir homeDir ++ slash :: (u ++ suffix) := by
    intro suffix
    rw [List.append_assoc, List.append_assoc]
    rfl
  simp only [keyPaths, keySuffixes, privKeyPath, pubKeyPath, List.mem_cons, List.not_mem_nil,
    or_false, happend, exists_eq_or_imp, exists_eq_left]

variable {env : Env} {cwd : Place} {home u v : Str} {n : Nat}

theorem zero_notMem_keysDir (hhome : 0 ∉ home) : 0 ∉ keysDir home := by
  intro hmem
  rcases List.mem_append.mp hmem with hmem | hmem
  · exact hhome hmem
  · exact absurd hmem (by decide)

theorem keysDir_ne_nil (home : Str) : keysDir home ≠ [] :=
  List.append_ne_nil_of_right_ne_nil home (by decide)

/-! ### Names that are kept apart -/

/-- What `loadKeyPairFromDisk` of a user `u` reads, beginning with the number
`n`: the text of the private and of the public key file. -/
def loadedPair (env : Env) (n : Nat) (files : Str → Option Str) (homeDir u : Str) :
    Option Str × Option Str :=
  (env.read n (privKeyPath homeDir u) (files (env.locate (privKeyPath homeDir u))),
    env.read (n + 1) (pubKeyPath homeDir u) (files (env.locate (pubKeyPath homeDir u))))

/-- That is the pair a client of the user has afterwards, if both files were read. -/
theorem wp_loadKeyPairFromDisk_loadedPair {J I : History → Prop} {i : Nat} {c : ClientId}
    {h : History} (hhome : env.home = some home) :
    env.system.wp J I i (loadKeyPairFromDisk env c)
      (fun r h' => r = .ok true → loadedPair env h.1.draws h.1.disk home (h.1.clients c).username
        = (some (h'.1.clients c).keyPair.privateKeyPem,
          some (h'.1.clients c).keyPair.publicKeyPem)) h := by
  unfold loadKeyPairFromDisk
  simp only [hhome]
  refine wp_step fun self h1 hself hh1 => ?_
  obtain rfl : self = h.1.clients c := hself
  subst hh1
  refine wp_step fun priv h2 hpriv hh2 => ?_
  rcases priv with - | privateKeyPem
  · exact fun e => by cases e
  · refine wp_step fun _ h3 _ hh3 => ?_
    refine wp_step fun pub h4 hpub hh4 => ?_
    rcases pub with - | publicKeyPem
    · exact fun e => by cases e
    · refine wp_step fun _ h5 _ hh5 _ => ?_
      have hself5 : (h5.1.clients c).keyPair = ⟨publicKeyPem, privateKeyPem⟩ := by
        rw [hh5]
        refine (congrArg ChatClient.keyPair (World.assign_self _ c _)).trans ?_
        rw [hh4]
        show (⟨publicKeyPem, (h3.1.clients c).keyPair.privateKeyPem⟩ : KeyPair) = _
        rw [hh3]
        exact congrArg (fun self => (⟨publicKeyPem, self.keyPair.privateKeyPem⟩ : KeyPair))
          (World.assign_self h2.1 c _)
      rw [hh3, hh2] at hpub
      rw [hself5]
      exact Prod.ext hpriv.symm hpub.symm

/-- The key files of `u` lie directly inside the key directory, and no
registration of a user `v` changes what is loaded for `u`. -/
structure KeysApart (cwd : Place) (home u v : Str) : Prop where
  inside : ∀ path ∈ keyPaths home u, ∃ name,
    file cwd path = some (resolve cwd (keysDir home) ++ [name])
  kept : ∀ env : Env, env.home = some home → env.PosixFiles cwd →
    ∀ names disk ms c p n, names c = v →
      loadedPair env n (env.run names disk (ms ++ [.call ⟨c, .registerOnServer p⟩])).hist.1.disk
          home u
        = loadedPair env n (env.run names disk ms).hist.1.disk home u

/-- In the directory `dir`, both file names of `u` are names of entries: the
directories they go through lead back to `dir`.  And no file name of `v` leads
back to `dir` and ends in the same name. -/
def Apart (dir : Place) (u v : Str) : Prop :=
  ∀ suffix ∈ keySuffixes, IsName (base (u ++ suffix)) ∧ walk dir (dirs (u ++ suffix)) = dir ∧
    ∀ suffix' ∈ keySuffixes, walk dir (dirs (v ++ suffix')) = dir →
      base (v ++ suffix') ≠ base (u ++ suffix)

instance (dir : Place) (u v : Str) : Decidable (Apart dir u v) := by
  unfold Apart
  infer_instance

/-- Files that are none of the user's are not touched by saving the user's pair. -/
theorem afterSave_of_ne {keyPair : KeyPair} {files : Str → Option Str} {f : Str}
    (hne : ∀ homeDir, env.home = some homeDir → ∀ path ∈ keyPaths homeDir u, f ≠ env.locate path) :
    env.afterSave n u keyPair files f = files f := by
  unfold Env.afterSave
  cases hhome : env.home with
  | none => rfl
  | some homeDir =>
      have hpriv := hne homeDir hhome (privKeyPath homeDir u) (by simp [keyPaths])
      have hpub := hne homeDir hhome (pubKeyPath homeDir u) (by simp [keyPaths])
      simp only
      split
      · rw [exec_write_snd, if_neg hpub, exec_write_snd, if_neg hpriv]
      · rfl

theorem keysApart_of_apart (hhome : 0 ∉ home) (h : Apart (resolve cwd (keysDir home)) u v) :
    KeysApart cwd home u v := by
  have hzero := zero_notMem_keysDir hhome
  have hnil := keysDir_ne_nil home
  refine ⟨fun path hpath => ?_, fun env henv hposix names disk ms c p n hname => ?_⟩
  · obtain ⟨suffix, hsuffix, rfl⟩ := mem_keyPaths.mp hpath
    obtain ⟨hisName, hwalk, -⟩ := h suffix hsuffix
    exact ⟨_, (file_append_eq_iff hzero hnil _ _).mpr ⟨hisName, hwalk, rfl⟩⟩
  · -- no path of `v` leads to a file of `u`
    have hother : ∀ path ∈ keyPaths home u, ∀ path' ∈ keyPaths home v,
        env.locate path ≠ env.locate path' := by
      intro path hpath path' hpath' heq
      obtain ⟨suffix, hsuffix, rfl⟩ := mem_keyPaths.mp hpath
      obtain ⟨suffix', hsuffix', rfl⟩ := mem_keyPaths.mp hpath'
      obtain ⟨hisName, hwalk, hapart⟩ := h suffix hsuffix
      have hfile : file cwd (keysDir home ++ slash :: (u ++ suffix))
          = some (resolve cwd (keysDir home) ++ [base (u ++ suffix)]) :=
        (file_append_eq_iff hzero hnil _ _).mpr ⟨hisName, hwalk, rfl⟩
      obtain ⟨-, hwalk', hbase⟩ := (file_append_eq_iff hzero hnil _ _).mp
        ((hposix.locate _ _ _ hfile).mp heq)
      exact hapart suffix' hsuffix' hwalk' hbase
    have hdisk : ∀ path ∈ keyPaths home u,
        (env.run names disk (ms ++ [.call ⟨c, .registerOnServer p⟩])).hist.1.disk (env.locate path)
          = (env.run names disk ms).hist.1.disk (env.locate path) := by
      intro path hpath
      rw [Env.run_append_singleton]
      rcases step_registerOnServer env (env.run names disk ms) c p with
        ⟨-, hsame⟩ | ⟨-, keyPair, hregistered⟩
      · rw [hsame]
      · rw [hregistered.disk, named_run env names disk ms c, hname]
        refine afterSave_of_ne fun homeDir hhomeDir path' hpath' => ?_
        rw [henv] at hhomeDir
        cases hhomeDir
        exact hother path hpath path' hpath'
    have hpriv := hdisk (privKeyPath home u) (by simp [keyPaths])
    have hpub := hdisk (pubKeyPath home u) (by simp [keyPaths])
    rw [loadedPair, loadedPair, hpriv, hpub]

/-! ### Names that meet -/

/-- Places can be written as texts, differently for different places. -/
theorem exists_placeCode : ∃ code : Place → Str, Function.Injective code := by
  have hbytes : Function.Injective UInt8.toNat := fun a b h => UInt8.toNat_inj.mp h
  have : Countable UInt8 := hbytes.countable
  obtain ⟨number, hnumber⟩ := exists_injective_nat Place
  refine ⟨fun place => List.replicate (number place) 0, fun a b h => hnumber ?_⟩
  simpa using congrArg List.length h

/-- The reference environment with the files of a POSIX system. -/
def Env.posix (code : Place → Str) (cwd : Place) (home : Str) : Env :=
  { Env.reference with
    home := some home
    locate := fun p => match file cwd p with
      | some place => 1 :: code place
      | none => [0]
    write := fun _ p text => if file cwd p = none then none else some text }

theorem posixFiles_posix {code : Place → Str} (hcode : Function.Injective code) (cwd : Place)
    (home : Str) : (Env.posix code cwd home).PosixFiles cwd := by
  refine ⟨fun p q place hp => ?_, fun n p text hp => if_pos hp⟩
  simp only [Env.posix, hp]
  rcases hq : file cwd q with - | place'
  · exact iff_of_false (fun e => by cases e) fun e => by cases e
  · constructor
    · intro e
      rw [hcode (List.cons.inj e).2]
    · intro e
      rw [Option.some.inj e]

/-- If a key file of `v` is a key file of `u`, registering `v` overwrites it. -/
theorem not_keysApart_of_file_eq {path path' : Str} {place : Place}
    (hpath : path ∈ keyPaths home u) (hpath' : path' ∈ keyPaths home v)
    (hfile : file cwd path = some place) (hfile' : file cwd path' = some place) :
    ¬ KeysApart cwd home u v := by
  intro happart
  obtain ⟨code, hcode⟩ := exists_placeCode
  have hposix := posixFiles_posix hcode cwd home
  have hlocate : (Env.posix code cwd home).locate path = (Env.posix code cwd home).locate path' :=
    (hposix.locate _ _ _ hfile).mpr hfile'
  have hkept := happart.kept (Env.posix code cwd home) rfl hposix (fun _ => v) Env.noFiles [] 0
    (str "pw") 0 rfl
  have hdisk : ((Env.posix code cwd home).run (fun _ => v) Env.noFiles
      ([] ++ [.call ⟨0, .registerOnServer (str "pw")⟩])).hist.1.disk
        = (Env.posix code cwd home).afterSave 2 v ⟨pub ++ [0], prv ++ [0]⟩ Env.noFiles := rfl
  -- afterwards there is something at the place, before there was nothing
  have hattempt : ∀ n text contents,
      ((Env.posix code cwd home).attempt n path' text contents).isSome := by
    intro n text contents
    have hwrite : (Env.posix code cwd home).write n path' text = some text :=
      if_neg (by rw [hfile']; exact Option.some_ne_none _)
    rw [Env.attempt, hwrite]
    rfl
  have hwritten : ((Env.posix code cwd home).afterSave 2 v ⟨pub ++ [0], prv ++ [0]⟩ Env.noFiles
      ((Env.posix code cwd home).locate path)).isSome := by
    rw [hlocate]
    show ((FileCall.exec _ (2 + 2) (.write (pubKeyPath home v) _)
      (FileCall.exec _ (2 + 1) (.write (privKeyPath home v) _) Env.noFiles).2).2 _).isSome
    rw [exec_write_snd, exec_write_snd]
    rcases List.mem_cons.mp hpath' with rfl | hpub
    · rw [if_pos rfl]
      split
      · rw [Env.attempt, Option.isSome_or, hattempt, Bool.or_true]
      · exact hattempt _ _ _
    · rw [List.mem_singleton.mp hpub, if_pos rfl, ← List.mem_singleton.mp hpub]
      exact hattempt _ _ _
  have hnone : (Env.posix code cwd home).afterSave 2 v ⟨pub ++ [0], prv ++ [0]⟩ Env.noFiles
      ((Env.posix code cwd home).locate path) = none := by
    rw [hdisk] at hkept
    rcases List.mem_cons.mp hpath with rfl | hpub
    · exact congrArg Prod.fst hkept
    · rw [List.mem_singleton.mp hpub]
      exact congrArg Prod.snd hkept
  rw [hnone] at hwritten
  cases hwritten

/-- **When the key store keeps two users apart**: exactly where both file names of
the first are entries of the key directory and no file name of the second is the
same entry. -/
theorem keysApart_iff (cwd : Place) (hhome : 0 ∉ home) (u v : Str) :
    KeysApart cwd home u v ↔ Apart (resolve cwd (keysDir home)) u v := by
  have hzero := zero_notMem_keysDir hhome
  have hnil := keysDir_ne_nil home
  refine ⟨fun happart suffix hsuffix => ?_, keysApart_of_apart hhome⟩
  obtain ⟨name, hfile⟩ := happart.inside _ (mem_keyPaths.mpr ⟨suffix, hsuffix, rfl⟩)
  obtain ⟨hisName, hwalk, hbase⟩ := (file_append_eq_iff hzero hnil _ _).mp hfile
  refine ⟨hisName, hwalk, fun suffix' hsuffix' hwalk' hbase' => ?_⟩
  have hfile' : file cwd (keysDir home ++ slash :: (v ++ suffix'))
      = some (resolve cwd (keysDir home) ++ [name]) :=
    (file_append_eq_iff hzero hnil _ _).mpr ⟨hbase' ▸ hisName, hwalk', hbase'.trans hbase⟩
  exact not_keysApart_of_file_eq (mem_keyPaths.mpr ⟨suffix, hsuffix, rfl⟩)
    (mem_keyPaths.mpr ⟨suffix', hsuffix', rfl⟩) hfile hfile' happart

/-- The files of Alice are safe from Bob. -/
theorem keysApart_alice_bob : KeysApart [] (str "/root") (str "alice") (str "bob") :=
  (keysApart_iff [] (by decide) (str "alice") (str "bob")).mpr (by decide +kernel)

/-- A user named `./bob` has the files of Bob. -/
theorem keysApart_dot_bob : ¬ ∀ u v, u ≠ v → KeysApart [] (str "/root") u v := by
  intro h
  have hfile : file [] (privKeyPath (str "/root") (str "bob"))
        = some [str "root", str ".evlampy", str "keys", str "bob.priv.pem"] ∧
      file [] (privKeyPath (str "/root") (str "./bob"))
        = some [str "root", str ".evlampy", str "keys", str "bob.priv.pem"] := by decide +kernel
  exact not_keysApart_of_file_eq List.mem_cons_self List.mem_cons_self hfile.1 hfile.2
    (h (str "bob") (str "./bob") (by decide))

/-! ### Texts without zero bytes -/

theorem keySuffixes_plain {suffix : Str} (h : suffix ∈ keySuffixes) :
    0 ∉ suffix ∧ slash ∉ suffix ∧ 3 ≤ suffix.length := by
  rcases List.mem_cons.mp h with rfl | h
  · decide
  · rw [List.mem_singleton.mp h]
    decide

/-- What is before a suffix can be read off a file name. -/
theorem append_suffix_inj {x y suffix suffix' : Str} (h : suffix ∈ keySuffixes)
    (h' : suffix' ∈ keySuffixes) (heq : x ++ suffix = y ++ suffix') : x = y := by
  have hpath : ∀ z w : Str, z ++ str ".priv.pem" ≠ w ++ str ".pub.pem" := by
    intro z w e
    refine privKeyPath_ne_pubKeyPath [] z w ?_
    rw [privKeyPath, pubKeyPath, List.append_assoc, List.append_assoc _ w, e]
  rcases List.mem_cons.mp h with rfl | h
  · rcases List.mem_cons.mp h' with rfl | h'
    · exact List.append_cancel_right heq
    · rw [List.mem_singleton.mp h'] at heq
      exact absurd heq (hpath x y)
  · rw [List.mem_singleton.mp h] at heq
    rcases List.mem_cons.mp h' with rfl | h'
    · exact absurd heq.symm (hpath y x)
    · rw [List.mem_singleton.mp h'] at heq
      exact List.append_cancel_right heq

/-- For names without zero bytes the suffixes do not matter: the directories in
`u` lead back to the key directory, and those in `v` do not, or the names end
differently. -/
theorem apart_iff {dir : Place} (hu : 0 ∉ u) (hv : 0 ∉ v) : Apart dir u v ↔
    walk dir (dirs u) = dir ∧ (walk dir (dirs v) = dir → base v ≠ base u) := by
  have hsplit : ∀ {x : Str}, 0 ∉ x → ∀ suffix ∈ keySuffixes,
      dirs (x ++ suffix) = dirs x ∧ base (x ++ suffix) = base x ++ suffix := by
    intro x hx suffix hsuffix
    obtain ⟨hzero, hslash, -⟩ := keySuffixes_plain hsuffix
    exact ⟨dirs_append_of_notMem hx hzero hslash, base_append_of_notMem hx hzero hslash⟩
  constructor
  · intro h
    have hpriv : str ".priv.pem" ∈ keySuffixes := List.mem_cons_self
    obtain ⟨-, hwalk, hapart⟩ := h _ hpriv
    rw [(hsplit hu _ hpriv).1] at hwalk
    refine ⟨hwalk, fun hwalk' hbase => hapart _ hpriv ?_ ?_⟩
    · rw [(hsplit hv _ hpriv).1]
      exact hwalk'
    · rw [(hsplit hv _ hpriv).2, (hsplit hu _ hpriv).2, hbase]
  · rintro ⟨hwalk, hbase⟩ suffix hsuffix
    rw [(hsplit hu suffix hsuffix).1, (hsplit hu suffix hsuffix).2]
    refine ⟨?_, hwalk, fun suffix' hsuffix' hwalk' heq => ?_⟩
    · -- the suffix is longer than any component that does not go down
      have hlong : 3 ≤ (base u ++ suffix).length := by
        rw [List.length_append]
        exact le_add_left (keySuffixes_plain hsuffix).2.2
      refine ⟨?_, ?_, ?_⟩
      all_goals
        intro e
        rw [e] at hlong
        exact absurd hlong (by decide)
    · rw [(hsplit hv suffix' hsuffix').1] at hwalk'
      rw [(hsplit hv suffix' hsuffix').2] at heq
      exact hbase hwalk' (append_suffix_inj hsuffix' hsuffix heq)

/-- Different names without slashes and zero bytes are kept apart. -/
theorem apart_of_plain {dir : Place} (hu : 0 ∉ u) (hu' : slash ∉ u) (hv : 0 ∉ v)
    (hv' : slash ∉ v) (hne : u ≠ v) : Apart dir u v := by
  rw [apart_iff hu hv, dirs_of_notMem hu hu', dirs_of_notMem hv hv', base_of_notMem hu hu',
    base_of_notMem hv hv']
  exact ⟨rfl, fun _ => hne.symm⟩

end Evlampy
