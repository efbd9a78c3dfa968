/-
First boot (`lib.rs`, `crypto/keystore.rs`): the daemon's start over the keystore directory, as a program with crashes and I/O errors.

A boot verifies the node key against `keystore.json` and opens the user store; if both are absent it sets up: it writes the manifest,
creates the store, stores the administrator `root` with a password that it has drawn, and writes that to `initial-root-password`. Whether
to set up is decided by the manifest alone. Every step may fail after some of its effects; a file is written byte by byte.

- `boot`: up to where the daemon serves. `Recovers`: a boot without faults serves, with an administrator whose password is in the file.
- `Phase`: what interrupted boots leave.
- `first_boot_recovers_iff`: however many boots were interrupted, the node recovers exactly if the manifest is not there, or the file holds
  the password to its end.
-/
import Mathlib.Tactic
import Y2q.Auth.Administrators
import Y2q.Core.Crash
import Y2q.Crypto.Keystore

namespace Y2q.FirstBoot

open CrashLogic NodeKeys Keystore Auth

/-! ## Disk -/

structure Disk (W : SlotWrap) where
  legacyPubkey : Bool
  /-- `keystore.json` -/
  manifest : Option (Except String KeystoreManifest)
  /-- `users.redb` -/
  users : Option (DbFile (UserStore W))
  /-- `node-key-rotation.json` is there -/
  journal : Bool
  /-- `initial-root-password`, as far as it is written -/
  passwordFile : Option Bytes

variable {W : SlotWrap}

def Disk.new : Disk W := ⟨false, none, none, false, none⟩

/-- what the check of the node key looks at -/
def Disk.keystore (d : Disk W) : KeystoreDir := ⟨d.legacyPubkey, d.manifest, d.users.map fun _ => .blank, none, none, none⟩

/-- the rows of the open store -/
def Disk.rows (d : Disk W) : UserStore W :=
  match d.users with
  | some (.sealed _ users) => users
  | _ => UserStore.empty

/-! ## Surroundings -/

/-- where an I/O error may come -/
inductive Step where
  | acquireLock
  | makeDir
  | writeManifest
  | openUsers
  | storeRoot
  | createPassword
  | writePassword
  | removePassword
  | syncDir
  | listUsers
  | getUser
  | promoteUser
deriving DecidableEq

/-- what a boot draws, and what fails in it -/
structure Surroundings where
  /-- the error, and after how many of the step's effects -/
  fault : Step → Option (ℕ × String)
  /-- `generate_root_password`: 24 random bytes, in base64 without padding -/
  rootPassword : { p : Bytes // p.length = 32 }
  realSlot : Slot
  draws : Slot → SlotDraw
  params : Argon2Params
  now : UInt64

def Surroundings.Faultless (S : Surroundings) : Prop := ∀ step, S.fault step = none

def io {σ ε α : Type} (S : Surroundings) (step : Step) (error : String → ε) (p : Prog σ ε α) : Prog σ ε α :=
  Prog.failAfter ((S.fault step).map fun f => (f.1, error f.2)) p

/-! ## The keystore -/

variable (P : Primitives) (nk : Bytes)

def INTERRUPTED_MESSAGE : String := "node key rotation was interrupted; re-run y2qd --rotate-node-key to finish it"

def setManifest (m : Except String KeystoreManifest) (d : Disk W) : Disk W := { d with manifest := some m }

def setUsers (f : Option (DbFile (UserStore W))) (d : Disk W) : Disk W := { d with users := f }

/-- `UserStore::open` -/
def openUserStore (S : Surroundings) : Prog (Disk W) CryptoError Unit :=
  io S .openUsers .userStore do
    let _ ← Prog.mapError (fun e => .userStore s!"open users.redb: {e}")
      (Prog.zoom (·.users) setUsers (openDb .Reject (deriveUserStoreFileKey P nk) UserStore.empty))
    pure ()

def load (S : Surroundings) : Prog (Disk W) CryptoError Unit := do
  let d ← Prog.get
  Prog.ofExcept (verifyNodeKey P nk d.keystore)
  openUserStore P nk S

def newManifest (S : Surroundings) : KeystoreManifest := ⟨KEYSTORE_FORMAT_VERSION, Base64.encode (deriveNodeKeyVerifier P nk), S.now⟩

/-- not parsed until it is written whole -/
def writeManifest (S : Surroundings) : Prog (Disk W) CryptoError Unit :=
  io S .writeManifest .keystoreIo do
    Prog.modify (setManifest (.error "EOF while parsing a value at line 1 column 0"))
    Prog.modify (setManifest (.ok (newManifest P nk S)))

def rootRecord (S : Surroundings) (username : String) : UserRecord W :=
  ⟨username, S.now.toNat, none, S.params,
    newSlotsRandom W username S.rootPassword S.params .Admin false S.realSlot S.draws, S.realSlot, .Admin⟩

/-- one transaction -/
def upsertUser (S : Surroundings) (step : Step) (record : UserRecord W) : Prog (Disk W) CryptoError Unit :=
  io S step .userStore (Prog.modify fun d => { d with users := DbFile.update (·.upsert record) d.users })

def firstRun (S : Surroundings) (username : String) : Prog (Disk W) CryptoError Unit := do
  io S .makeDir .keystoreIo (pure ())
  let d ← Prog.get
  if d.manifest.isSome then Prog.throw (.keystoreIo "keystore.json already exists; refusing to overwrite")
  else do
    writeManifest P nk S
    openUserStore P nk S
    upsertUser S .storeRoot (rootRecord S username)

/-! ## The password file -/

/-- what stands before the password -/
def passwordHead (username : String) : Bytes := utf8 "username: " ++ utf8 username ++ utf8 "\npassword: "

def passwordText (username : String) (password : Bytes) : Bytes := passwordHead username ++ password ++ utf8 "\n"

def appendByte (b : UInt8) (d : Disk W) : Disk W := { d with passwordFile := d.passwordFile.map (· ++ [b]) }

/-- `write_all`, and `sync_all` -/
def appendBytes (text : Bytes) : Prog (Disk W) String Unit := text.foldlM (fun _ b => Prog.modify (appendByte b)) ()

def setPasswordFile (f : Option Bytes) (d : Disk W) : Disk W := { d with passwordFile := f }

def writeInitialRootPassword (S : Surroundings) (username : String) (password : Bytes) : Prog (Disk W) String Unit := do
  let d ← Prog.get
  if d.passwordFile.isSome then
    Prog.throw "create initial root password file initial-root-password: File exists (os error 17)"
  else do
    io S .createPassword (fun e => s!"create initial root password file initial-root-password: {e}")
      (Prog.modify (setPasswordFile (some [])))
    match ← Prog.attempt (io S .writePassword id (appendBytes (passwordText username password))) with
    | .ok _ => io S .syncDir (fun e => s!"fsync keystore dir after initial root password: {e}") (pure ())
    | .error e => do
      let _ ← Prog.attempt (io S .removePassword id (Prog.modify (setPasswordFile none)))
      Prog.throw s!"write initial root password file initial-root-password: {e}"

/-! ## Boot -/

def loadOrFirstRun (S : Surroundings) : Prog (Disk W) String Unit := do
  match ← Prog.attempt (load P nk S) with
  | .ok _ => pure ()
  | .error (.keystoreMissing _) => do
    Prog.mapError (fun e : CryptoError => s!"first-run setup: {e.message}") (firstRun P nk S "root")
    writeInitialRootPassword S "root" S.rootPassword
  | .error e => Prog.throw s!"load keystore: {e.message}"

/-- the records, by name -/
def records (users : UserStore W) : List (UserRecord W) := users.table.toList.map Prod.snd

/-- `root`, or else the oldest -/
def promoted (users : List (UserRecord W)) : Option String :=
  ((users.find? fun u => u.username = "root").or (users.argmin (·.createdAt))).map (·.username)

def reconcileAdmin (S : Surroundings) : Prog (Disk W) String Unit := do
  let d ← io S .listUsers (fun e => s!"list users: {e}") Prog.get
  let users := records d.rows
  if users = [] ∨ users.any (·.role = .Admin) then pure ()
  else
    match promoted users with
    | none => pure ()
    | some name => do
      let d ← io S .getUser (fun e => s!"get user {name}: {e}") Prog.get
      match d.rows.get name with
      | none => pure ()
      | some rec =>
        Prog.mapError (fun e : CryptoError => s!"promote {name} to admin: {e.message}") (upsertUser S .promoteUser { rec with role := .Admin })

/-- to where the daemon serves -/
def boot (S : Surroundings) : Prog (Disk W) String Unit := do
  let d ← Prog.get
  if d.journal then Prog.throw INTERRUPTED_MESSAGE
  else do
    io S .acquireLock (fun e => s!"acquire keystore lock: {e}") (pure ())
    loadOrFirstRun P nk S
    reconcileAdmin S

/-! ## Recovery -/

/-- the file gives the password, up to the end of its line -/
def Shows (file : Bytes) (username : String) (password : Bytes) : Prop :=
  ∃ rest, file = passwordHead username ++ password ++ rest ∧ (rest = [] ∨ rest = utf8 "\n")

/-- a user in the file logs in as an administrator -/
def ServesAdmin (d : Disk W) : Prop :=
  ∃ users u rec pw i file, d.users = some (.sealed (deriveUserStoreFileKey P nk) users) ∧ users.get u = some rec ∧ rec.role = .Admin ∧
    OpensAdmin rec pw i ∧ d.passwordFile = some file ∧ Shows file u pw

/-- the set-up, which the absence of both files asks for, is carried out again -/
def SetsUp (d : Disk W) : Prop := ∃ path, verifyNodeKey P nk d.keystore = .error (.keystoreMissing path)

/-- a boot without faults serves -/
def Recovers (d : Disk W) : Prop :=
  ∀ S, S.Faultless → (boot P nk S).result d = .ok () ∧ ServesAdmin P nk ((boot P nk S).final d)

/-! ## What interrupted boots leave -/

variable {P nk} {S : Surroundings} {d : Disk W}

/-- a manifest with the verifier of the node key -/
def Fits (P : Primitives) (nk : Bytes) (m : KeystoreManifest) : Prop :=
  m.formatVersion = KEYSTORE_FORMAT_VERSION ∧ Base64.decode m.nodeKeyVerifierB64 = some (deriveNodeKeyVerifier P nk)

inductive Phase (P : Primitives) (nk : Bytes) (d : Disk W) : Prop where
  | fresh (hm : d.manifest = none) (hu : d.users = none) (hp : d.passwordFile = none)
  /-- the manifest is not whole -/
  | torn {e : String} (hm : d.manifest = some (.error e)) (hu : d.users = none) (hp : d.passwordFile = none)
  /-- no user is stored -/
  | unset {m : KeystoreManifest} (hm : d.manifest = some (.ok m)) (hfits : Fits P nk m)
    (hu : opensAs .Reject (deriveUserStoreFileKey P nk) UserStore.empty d.users = some UserStore.empty) (hp : d.passwordFile = none)
  /-- root is stored; the file is as far as it is written -/
  | root {m : KeystoreManifest} {S : Surroundings} (hm : d.manifest = some (.ok m)) (hfits : Fits P nk m)
    (hu : d.users = some (.sealed (deriveUserStoreFileKey P nk) (UserStore.empty.upsert (rootRecord S "root"))))
    (hp : d.passwordFile = none ∨ ∃ n, d.passwordFile = some ((passwordText "root" S.rootPassword).take n))

structure Interrupted (P : Primitives) (nk : Bytes) (d : Disk W) : Prop where
  legacyPubkey : d.legacyPubkey = false
  journal : d.journal = false
  phase : Phase P nk d

/-- an I/O error leaves what a crash may leave -/
def Fails (S : Surroundings) (C : Disk W → Prop) (d : Disk W) : Prop := ¬S.Faultless ∧ C d

theorem fits_newManifest : Fits P nk (newManifest P nk S) := ⟨rfl, Base64.decode_encode _⟩

theorem verifyNodeKey_fits {m : KeystoreManifest} (hl : d.legacyPubkey = false) (hm : d.manifest = some (.ok m)) (hfits : Fits P nk m) :
    verifyNodeKey P nk d.keystore = .ok () := by
  have hfit : ManifestFit d.keystore := ⟨hl, m, _, hm, hfits.1, hfits.2⟩
  exact (verifyNodeKey_ok_iff hfit).2 ⟨m, hm, hfits.2⟩

theorem verifyNodeKey_fresh (hl : d.legacyPubkey = false) (hm : d.manifest = none) (hu : d.users = none) :
    verifyNodeKey P nk d.keystore = .error (.keystoreMissing "keystore.json") := by
  simp only [verifyNodeKey, Disk.keystore, hl, hm, hu, Bool.false_eq_true, if_false, Option.map_none, Option.isSome_none]

theorem verifyNodeKey_torn {e : String} (hl : d.legacyPubkey = false) (hm : d.manifest = some (.error e)) :
    verifyNodeKey P nk d.keystore = .error (.keystoreCorrupt "keystore.json" s!"parse: {e}") := by
  simp only [verifyNodeKey, Disk.keystore, hl, hm, Bool.false_eq_true, if_false]

/-! ## Steps -/

section

variable {σ ε α : Type} {A : σ → Prop} {p : Prog σ ε α} {Q : α → σ → Prop} {E : ε → σ → Prop} {C : σ → Prop} {step : Step}
  {error : String → ε}

theorem io_spec (h : Spec A p Q E C) (hE : ∀ x s, ¬S.Faultless → C s → E (error x) s) : Spec A (io S step error p) Q E C := by
  refine Spec.failAfter h fun k e hfault s hc => ?_
  obtain ⟨f, hf, heq⟩ := Option.map_eq_some_iff.1 hfault
  cases heq
  exact hE f.2 s (fun hall => absurd (hf.symm.trans (hall step)) nofun) hc

theorem io_pure_spec {s : σ} (hC : C s) (hE : ∀ x, ¬S.Faultless → E (error x) s) :
    Spec (fun u => u = s) (io S step error (pure ())) (fun _ u => u = s) E C := by
  have h : Spec (fun u => u = s) (pure () : Prog σ ε Unit) (fun _ u => u = s) E (fun u => u = s) := Spec.pure () (fun _ hu => hu) fun _ hu => hu
  refine (io_spec h fun x u hfault hu => hu ▸ hE x hfault).conseq (fun _ hu => hu) (fun _ _ hu => hu) (fun _ _ he => he) fun u hu => hu ▸ hC

end

variable {C : Disk W → Prop} {users : UserStore W}

/-- what a cut open leaves of the file -/
def OpenCut (fileKey : Bytes) (users : UserStore W) (file file' : Option (DbFile (UserStore W))) : Prop :=
  file' = file ∨ ((∀ k c, file ≠ some (.sealed k c)) ∧ opensAs .Reject fileKey UserStore.empty file' = some users)

theorem openCut_sealed {fileKey : Bytes} {file : Option (DbFile (UserStore W))}
    (ho : opensAs .Reject fileKey UserStore.empty file = some users) : OpenCut fileKey users file (some (.sealed fileKey users)) := by
  by_cases hs : ∃ k c, file = some (.sealed k c)
  · obtain ⟨k, c, rfl⟩ := hs
    rw [opensAs_sealed] at ho
    split_ifs at ho with hk
    cases ho
    exact Or.inl (by rw [hk])
  · exact Or.inr ⟨fun k c heq => hs ⟨k, c, heq⟩, if_pos rfl⟩

theorem OpenCut.opens {fileKey : Bytes} {file file' : Option (DbFile (UserStore W))} (h : OpenCut fileKey users file file')
    (ho : opensAs .Reject fileKey UserStore.empty file = some users) : opensAs .Reject fileKey UserStore.empty file' = some users := by
  rcases h with rfl | h
  · exact ho
  · exact h.2

theorem openUserStore_spec (ho : opensAs .Reject (deriveUserStoreFileKey P nk) UserStore.empty d.users = some users)
    (hC : ∀ g, OpenCut (deriveUserStoreFileKey P nk) users d.users g → C { d with users := g }) :
    Spec (fun u => u = d) (openUserStore P nk S)
      (fun _ u => u = { d with users := some (.sealed (deriveUserStoreFileKey P nk) users) })
      (fun e u => (∃ what, e = .userStore what) ∧ Fails S C u) C := by
  refine io_spec (Spec.bind (R := fun _ u => u = { d with users := some (.sealed (deriveUserStoreFileKey P nk) users) })
    (Spec.mapError (E := fun _ _ => False) (Spec.zoom d rfl (openDb_spec .Reject _ UserStore.empty d.users) rfl ?_ ?_ ?_) nofun)
    fun _ => Spec.pure () (fun _ hu => hu) fun u hu => ?_) fun x u hfault hc => ⟨⟨x, rfl⟩, hfault, hc⟩
  · intro c f ⟨hc, hf⟩
    rw [ho] at hc
    rw [hf, ← Option.some.inj hc]
    rfl
  · intro e f ⟨hnone, _⟩
    rw [ho] at hnone
    exact absurd hnone nofun
  · intro g hg
    have hopens := opensAs_cut ho hg
    exact hC g (hg.imp id fun hns => ⟨hns.1, hopens⟩)
  · rw [hu]
    exact hC _ (openCut_sealed ho)

theorem load_spec (hv : verifyNodeKey P nk d.keystore = .ok ())
    (ho : opensAs .Reject (deriveUserStoreFileKey P nk) UserStore.empty d.users = some users)
    (hC : ∀ g, OpenCut (deriveUserStoreFileKey P nk) users d.users g → C { d with users := g }) :
    Spec (fun u => u = d) (load P nk S) (fun _ u => u = { d with users := some (.sealed (deriveUserStoreFileKey P nk) users) })
      (fun e u => (∃ what, e = .userStore what) ∧ Fails S C u) C := by
  refine Spec.get_bind fun u hu => ?_
  subst hu
  exact Spec.ofExcept_bind hv (openUserStore_spec ho hC)

/-- with an administrator, or without users, there is nothing to reconcile -/
theorem reconcileAdmin_spec (h : records d.rows = [] ∨ (records d.rows).any (·.role = .Admin)) (hC : C d) :
    Spec (fun u => u = d) (reconcileAdmin S) (fun _ u => u = d) (fun _ u => Fails S C u) C := by
  have hget : Spec (fun u => u = d) (Prog.get : Prog (Disk W) String (Disk W)) (fun r u => r = d ∧ u = d) (fun _ u => Fails S C u)
      (fun u => u = d) := Spec.get (fun u hu => ⟨hu, hu⟩) fun _ hu => hu
  refine Spec.bind (R := fun r u => r = d ∧ u = d) ((io_spec hget fun x u hfault hu => ⟨hfault, hu ▸ hC⟩).conseq (fun _ hu => hu)
    (fun _ _ hr => hr) (fun _ _ he => he) fun u hu => hu ▸ hC) fun r => Spec.of_states fun u hu => ?_
  obtain ⟨rfl, rfl⟩ := hu
  rw [if_pos h]
  exact Spec.pure () (fun _ hu => hu) fun u hu => hu ▸ hC

/-! ## A boot that loads -/

theorem loadOrFirstRun_spec (hv : verifyNodeKey P nk d.keystore = .ok ())
    (ho : opensAs .Reject (deriveUserStoreFileKey P nk) UserStore.empty d.users = some users)
    (hC : ∀ g, OpenCut (deriveUserStoreFileKey P nk) users d.users g → C { d with users := g }) :
    Spec (fun u => u = d) (loadOrFirstRun P nk S) (fun _ u => u = { d with users := some (.sealed (deriveUserStoreFileKey P nk) users) })
      (fun _ u => Fails S C u) C := by
  refine Spec.bind (R := fun r u => (r = .ok () ∧ u = { d with users := some (.sealed (deriveUserStoreFileKey P nk) users) }) ∨
    ∃ what, r = .error (.userStore what) ∧ Fails S C u) (Spec.attempt (load_spec hv ho hC) ?_ ?_) fun r => ?_
  · intro _ u hu
    exact Or.inl ⟨rfl, hu⟩
  · intro e u ⟨⟨what, he⟩, hfails⟩
    exact Or.inr ⟨what, he ▸ rfl, hfails⟩
  · refine Spec.of_states fun u hu => ?_
    rcases hu with ⟨rfl, rfl⟩ | ⟨what, rfl, hfails⟩
    · exact Spec.pure () (fun _ hu => hu) fun u hu => hu ▸ hC _ (openCut_sealed ho)
    · exact Spec.throw (fun _ hu => hu ▸ hfails) fun _ hu => hu ▸ hfails.2

theorem boot_load_spec (hj : d.journal = false) (hv : verifyNodeKey P nk d.keystore = .ok ())
    (ho : opensAs .Reject (deriveUserStoreFileKey P nk) UserStore.empty d.users = some users)
    (hr : records users = [] ∨ (records users).any (·.role = .Admin))
    (hC : ∀ g, OpenCut (deriveUserStoreFileKey P nk) users d.users g → C { d with users := g }) :
    Spec (fun u => u = d) (boot P nk S) (fun _ u => u = { d with users := some (.sealed (deriveUserStoreFileKey P nk) users) })
      (fun _ u => Fails S C u) C := by
  have hd : C d := hC d.users (Or.inl rfl)
  refine Spec.get_bind fun u hu => ?_
  subst hu
  rw [if_neg (by rw [hj]; exact Bool.false_ne_true)]
  refine Spec.bind (io_pure_spec hd fun _ hfault => ⟨hfault, hd⟩) fun _ => Spec.bind (loadOrFirstRun_spec hv ho hC) fun _ => ?_
  exact reconcileAdmin_spec hr (hC _ (openCut_sealed ho))

/-! ## A boot that sets up -/

theorem writeManifest_spec (hC : C d) (hC' : ∀ m, (∃ e, m = .error e) ∨ m = .ok (newManifest P nk S) → C (setManifest m d)) :
    Spec (fun u => u = d) (writeManifest P nk S) (fun _ u => u = setManifest (.ok (newManifest P nk S)) d) (fun _ u => Fails S C u) C := by
  refine io_spec (Spec.bind (R := fun _ u => u = setManifest (.error "EOF while parsing a value at line 1 column 0") d)
    (Spec.modify ?_ ?_ ?_) fun _ => Spec.modify ?_ ?_ ?_) fun _ _ hfault hc => ⟨hfault, hc⟩
  · rintro u rfl
    rfl
  · rintro u rfl
    exact hC
  · rintro u rfl
    exact hC' _ (Or.inl ⟨_, rfl⟩)
  · rintro u rfl
    rfl
  · rintro u rfl
    exact hC' _ (Or.inl ⟨_, rfl⟩)
  · rintro u rfl
    exact hC' _ (Or.inr rfl)

theorem upsertUser_spec {step : Step} {record : UserRecord W} {fileKey : Bytes} (hu : d.users = some (.sealed fileKey users)) (hC : C d)
    (hC' : C { d with users := some (.sealed fileKey (users.upsert record)) }) :
    Spec (fun u => u = d) (upsertUser S step record) (fun _ u => u = { d with users := some (.sealed fileKey (users.upsert record)) })
      (fun _ u => Fails S C u) C := by
  have hrow : ({ d with users := DbFile.update (·.upsert record) d.users } : Disk W) =
      { d with users := some (.sealed fileKey (users.upsert record)) } := by
    rw [hu]
    rfl
  refine io_spec (Spec.modify ?_ ?_ ?_) fun _ _ hfault hc => ⟨hfault, hc⟩
  · rintro u rfl
    exact hrow
  · rintro u rfl
    exact hC
  · rintro u rfl
    exact hrow ▸ hC'

/-- what stands in the file is a beginning of the text -/
theorem appendBytes_spec (text : Bytes) (h : d.passwordFile = some []) :
    Spec (fun u => u = d) (appendBytes text) (fun _ u => u = { d with passwordFile := some text }) (fun _ _ => False)
      (fun u => ∃ n, u = { d with passwordFile := some (text.take n) }) := by
  have hloop := @Spec.foldlM (Disk W) String UInt8 Unit (fun _ _ => False) (fun u => ∃ n, u = { d with passwordFile := some (text.take n) })
    (fun _ b => Prog.modify (appendByte b)) (fun done rest _ u => done ++ rest = text ∧ u = { d with passwordFile := some done }) ?_ ?_ []
    text ()
  · refine hloop.conseq ?_ ?_ (fun _ _ he => he) fun _ hc => hc
    · rintro u rfl
      exact ⟨rfl, by rw [← h]⟩
    · intro _ u hu
      exact hu.2
  · rintro done rest _ u ⟨htext, rfl⟩
    exact ⟨done.length, by rw [← htext, List.take_left]⟩
  · intro done b rest _
    refine Spec.modify ?_ ?_ ?_
    · rintro u ⟨htext, rfl⟩
      exact ⟨by rw [List.append_assoc]; exact htext, rfl⟩
    · rintro u ⟨htext, rfl⟩
      exact ⟨done.length, by rw [← htext, List.take_left]⟩
    · rintro u ⟨htext, rfl⟩
      refine ⟨done.length + 1, ?_⟩
      rw [← htext, List.take_append, List.take_of_length_le (Nat.le_succ _), Nat.add_sub_cancel_left]
      rfl

/-- the file is removed, or not -/
theorem removePassword_spec (message : String) :
    Spec (fun u => u = d)
      (Prog.attempt (io S .removePassword id (Prog.modify (setPasswordFile none))) >>= fun _ : Except String Unit =>
        (Prog.throw message : Prog (Disk W) String Unit))
      (fun _ _ => False) (fun _ u => u = d ∨ u = { d with passwordFile := none }) (fun u => u = d ∨ u = { d with passwordFile := none }) := by
  refine Spec.bind (R := fun _ u => u = d ∨ u = { d with passwordFile := none })
    (Spec.attempt (E := fun _ u => u = d ∨ u = { d with passwordFile := none })
      (io_spec (Spec.modify (Q := fun _ u => u = d ∨ u = { d with passwordFile := none }) ?_ ?_ ?_) ?_) (fun _ _ hu => hu) fun _ _ hu => hu)
    fun _ => Spec.throw (fun _ hu => hu) fun _ hu => hu
  · rintro u rfl
    exact Or.inr rfl
  · rintro u rfl
    exact Or.inl rfl
  · rintro u rfl
    exact Or.inr rfl
  · exact fun _ _ _ hu => hu

theorem writeInitialRootPassword_spec {username : String} {password : Bytes} (h : d.passwordFile = none) (hC : C d)
    (hC' : ∀ n, C { d with passwordFile := some ((passwordText username password).take n) }) :
    Spec (fun u => u = d) (writeInitialRootPassword S username password)
      (fun _ u => u = { d with passwordFile := some (passwordText username password) }) (fun _ u => Fails S C u) C := by
  have hnone : ({ d with passwordFile := none } : Disk W) = d := by
    rw [← h]
  have hfull : C { d with passwordFile := some (passwordText username password) } := by
    have hall := hC' (passwordText username password).length
    rw [List.take_length] at hall
    exact hall
  refine Spec.get_bind fun u hu => ?_
  subst hu
  rw [if_neg (by rw [h]; exact Bool.false_ne_true)]
  refine Spec.bind (R := fun _ v => v = { u with passwordFile := some [] }) (io_spec (Spec.modify ?_ ?_ ?_) ?_) fun _ => ?_
  · rintro v rfl
    rfl
  · rintro v rfl
    exact hC
  · rintro v rfl
    exact hC' 0
  · exact fun _ _ hfault hc => ⟨hfault, hc⟩
  -- a failed write is followed by an attempt to remove the file
  refine Spec.bind (R := fun r v => (r = .ok () ∧ v = { u with passwordFile := some (passwordText username password) }) ∨
    (∃ e, r = .error e) ∧ ¬S.Faultless ∧ ∃ n, v = { u with passwordFile := some ((passwordText username password).take n) })
    (Spec.attempt (E := fun _ v => ¬S.Faultless ∧ ∃ n, v = { u with passwordFile := some ((passwordText username password).take n) })
      ((io_spec ((appendBytes_spec (passwordText username password) rfl).conseq (fun _ hv => hv) (fun _ _ hq => hq)
        (fun _ _ he => he.elim) fun _ hc => hc) fun _ _ hfault hc => ⟨hfault, hc⟩).conseq (fun _ hv => hv) (fun _ _ hq => hq)
        (fun _ _ he => he) fun v hv => ?_) ?_ ?_) fun r => Spec.of_states fun v hv => ?_
  · obtain ⟨n, rfl⟩ := hv
    exact hC' n
  · exact fun _ v hv => Or.inl ⟨rfl, hv⟩
  · exact fun e v hv => Or.inr ⟨⟨e, rfl⟩, hv⟩
  · rcases hv with ⟨rfl, rfl⟩ | ⟨⟨e, rfl⟩, hfault, n, rfl⟩
    · exact io_pure_spec hfull fun _ hfault => ⟨hfault, hfull⟩
    · have hleft : ∀ w : Disk W, w = { u with passwordFile := some ((passwordText username password).take n) } ∨
          w = { u with passwordFile := none } → C w := by
        rintro w (rfl | rfl)
        · exact hC' n
        · exact hnone ▸ hC
      exact (removePassword_spec _).conseq (fun _ hw => hw) (fun _ _ hw => hw.elim) (fun _ w hw => ⟨hfault, hleft w hw⟩) hleft

/-- the disk after a set-up -/
def Disk.setUp (P : Primitives) (nk : Bytes) (S : Surroundings) (d : Disk W) : Disk W :=
  { d with
    manifest := some (.ok (newManifest P nk S)),
    users := some (.sealed (deriveUserStoreFileKey P nk) (UserStore.empty.upsert (rootRecord S "root"))) }

section

variable (hl : d.legacyPubkey = false) (hj : d.journal = false)

include hl hj

theorem interrupted_setManifest {m : Except String KeystoreManifest} (hm : (∃ e, m = .error e) ∨ m = .ok (newManifest P nk S))
    (hu : d.users = none) (hp : d.passwordFile = none) : Interrupted P nk (setManifest m d) := by
  refine ⟨hl, hj, ?_⟩
  rcases hm with ⟨e, rfl⟩ | rfl
  · exact .torn rfl hu hp
  · refine .unset rfl fits_newManifest ?_ hp
    change opensAs _ _ _ d.users = _
    rw [hu]
    rfl

theorem interrupted_setUp (hp : d.passwordFile = none ∨ ∃ n, d.passwordFile = some ((passwordText "root" S.rootPassword).take n)) :
    Interrupted P nk (d.setUp P nk S) := ⟨hl, hj, .root rfl fits_newManifest rfl hp⟩

theorem firstRun_spec (hm : d.manifest = none) (hu : d.users = none) (hp : d.passwordFile = none) :
    Spec (fun u => u = d) (firstRun P nk S "root") (fun _ u => u = d.setUp P nk S) (fun _ u => Fails S (Interrupted P nk) u)
      (Interrupted P nk) := by
  have hd : Interrupted P nk d := ⟨hl, hj, .fresh hm hu hp⟩
  have hmanifest := fun m hm' => @interrupted_setManifest W P nk S d hl hj m hm' hu hp
  have hopens : opensAs .Reject (deriveUserStoreFileKey P nk) UserStore.empty (setManifest (.ok (newManifest P nk S)) d).users =
      some UserStore.empty := by
    change opensAs _ _ _ d.users = _
    rw [hu]
    rfl
  refine Spec.bind (io_pure_spec hd fun _ hfault => ⟨hfault, hd⟩) fun _ => Spec.get_bind fun u hu' => ?_
  subst hu'
  rw [if_neg (by rw [hm]; exact Bool.false_ne_true)]
  refine Spec.bind (writeManifest_spec hd hmanifest) fun _ => ?_
  refine Spec.bind ((openUserStore_spec (C := Interrupted P nk) hopens fun g hg =>
    ⟨hl, hj, .unset rfl fits_newManifest (hg.opens hopens) hp⟩).conseq
    (fun _ hv => hv) (fun _ _ hq => hq) (fun _ _ he => he.2) fun _ hc => hc) fun _ => ?_
  refine upsertUser_spec rfl ⟨hl, hj, .unset rfl fits_newManifest (if_pos rfl) hp⟩ ?_
  exact interrupted_setUp hl hj (Or.inl hp)

theorem boot_setUp_spec (hm : d.manifest = none) (hu : d.users = none) (hp : d.passwordFile = none) :
    Spec (fun u => u = d) (boot P nk S)
      (fun _ u => u = { d.setUp P nk S with passwordFile := some (passwordText "root" S.rootPassword) })
      (fun _ u => Fails S (Interrupted P nk) u) (Interrupted P nk) := by
  have hd : Interrupted P nk d := ⟨hl, hj, .fresh hm hu hp⟩
  have hfile : ∀ n, Interrupted P nk { d.setUp P nk S with passwordFile := some ((passwordText "root" S.rootPassword).take n) } :=
    fun n => ⟨hl, hj, .root rfl fits_newManifest rfl (Or.inr ⟨n, rfl⟩)⟩
  refine Spec.get_bind fun u hu' => ?_
  subst hu'
  rw [if_neg (by rw [hj]; exact Bool.false_ne_true)]
  refine Spec.bind (io_pure_spec hd fun _ hfault => ⟨hfault, hd⟩) fun _ => ?_
  have hload : Spec (fun v => v = u) (load P nk S) (fun _ _ => False) (fun e v => e = .keystoreMissing "keystore.json" ∧ v = u)
      (Interrupted P nk) := by
    refine Spec.get_bind fun v hv => ?_
    subst hv
    rw [verifyNodeKey_fresh hl hm hu]
    refine Spec.bind (R := fun _ _ => False) (Spec.throw (fun v hv => ⟨rfl, hv⟩) fun v hv => hv ▸ hd) fun _ s hs => hs.elim
  refine Spec.bind (R := fun _ v => v = { u.setUp P nk S with passwordFile := some (passwordText "root" S.rootPassword) })
    (Spec.bind (R := fun r v => r = .error (.keystoreMissing "keystore.json") ∧ v = u)
      (Spec.attempt hload (fun _ _ h => h.elim) fun e v he => ⟨congrArg _ he.1, he.2⟩) fun r => Spec.of_states fun v hv => ?_) fun _ => ?_
  · obtain ⟨rfl, rfl⟩ := hv
    refine Spec.bind (Spec.mapError (firstRun_spec hl hj hm hu hp) fun _ _ he => he) fun _ => ?_
    exact writeInitialRootPassword_spec hp (interrupted_setUp hl hj (Or.inl hp)) hfile
  · refine reconcileAdmin_spec (Or.inr rfl) ?_
    have hall := hfile (passwordText "root" S.rootPassword).length
    rw [List.take_length] at hall
    exact hall

end

/-! ## Every boot -/

/-- a manifest that is not whole ends every boot -/
theorem boot_torn_spec {e : String} (hl : d.legacyPubkey = false) (hj : d.journal = false) (hm : d.manifest = some (.error e)) :
    Spec (fun u => u = d) (boot P nk S) (fun _ _ => False) (fun _ u => u = d) (fun u => u = d) := by
  refine Spec.get_bind fun u hu => ?_
  subst hu
  rw [if_neg (by rw [hj]; exact Bool.false_ne_true)]
  refine Spec.bind (io_pure_spec rfl fun _ _ => rfl) fun _ => ?_
  have hload : Spec (fun v => v = u) (load P nk S) (fun _ _ => False)
      (fun e' v => e' = .keystoreCorrupt "keystore.json" s!"parse: {e}" ∧ v = u) (fun v => v = u) := by
    refine Spec.get_bind fun v hv => ?_
    subst hv
    rw [verifyNodeKey_torn hl hm]
    exact Spec.bind (R := fun _ _ => False) (Spec.throw (fun v hv => ⟨rfl, hv⟩) fun v hv => hv) fun _ s hs => hs.elim
  refine Spec.bind (R := fun _ _ => False)
    (Spec.bind (R := fun r v => r = .error (.keystoreCorrupt "keystore.json" s!"parse: {e}") ∧ v = u)
      (Spec.attempt hload (fun _ _ h => h.elim) fun e' v he => ⟨congrArg _ he.1, he.2⟩) fun r => Spec.of_states fun v hv => ?_)
    fun _ s hs => hs.elim
  obtain ⟨rfl, rfl⟩ := hv
  exact Spec.throw (fun _ hw => hw) fun _ hw => hw

theorem opensAs_root {fileKey : Bytes} (hu : d.users = some (.sealed fileKey users)) :
    opensAs .Reject fileKey UserStore.empty d.users = some users := by
  rw [hu]
  exact if_pos rfl

/-- a boot that does not set up leaves the manifest and the password file as they are -/
theorem crash_keeps {d' : Disk W} (h : Interrupted P nk d) (hm : d.manifest ≠ none) (hc : Crash (boot P nk S) d d') :
    d'.manifest = d.manifest ∧ d'.passwordFile = d.passwordFile := by
  obtain ⟨hl, hj, hphase⟩ := h
  cases hphase with
  | fresh hnone => exact absurd hnone hm
  | torn hm' =>
    have heq : d' = d := (boot_torn_spec hl hj hm' d rfl).1 d' hc
    exact heq ▸ ⟨rfl, rfl⟩
  | unset hm' hfits hu hp =>
    have hload := @boot_load_spec W P nk S d (fun u => u.manifest = d.manifest ∧ u.passwordFile = d.passwordFile) _ hj
      (verifyNodeKey_fits hl hm' hfits) hu (Or.inl rfl) fun _ _ => ⟨rfl, rfl⟩
    exact (hload d rfl).1 d' hc
  | root hm' hfits hu hp =>
    have hload := @boot_load_spec W P nk S d (fun u => u.manifest = d.manifest ∧ u.passwordFile = d.passwordFile) _ hj
      (verifyNodeKey_fits hl hm' hfits) (opensAs_root hu) (Or.inr rfl) fun _ _ => ⟨rfl, rfl⟩
    exact (hload d rfl).1 d' hc

theorem Interrupted.step {d' : Disk W} (h : Interrupted P nk d) (hc : Crash (boot P nk S) d d') : Interrupted P nk d' := by
  obtain ⟨hl, hj, hphase⟩ := h
  cases hphase with
  | fresh hm hu hp => exact (boot_setUp_spec hl hj hm hu hp d rfl).1 d' hc
  | torn hm hu hp =>
    have heq : d' = d := (boot_torn_spec hl hj hm d rfl).1 d' hc
    exact heq ▸ ⟨hl, hj, .torn hm hu hp⟩
  | unset hm hfits hu hp =>
    have hload := @boot_load_spec W P nk S d (Interrupted P nk) _ hj (verifyNodeKey_fits hl hm hfits) hu (Or.inl rfl)
      fun g hg => ⟨hl, hj, .unset hm hfits (hg.opens hu) hp⟩
    exact (hload d rfl).1 d' hc
  | root hm hfits hu hp =>
    have hload := @boot_load_spec W P nk S d (fun u => u = d) _ hj (verifyNodeKey_fits hl hm hfits) (opensAs_root hu) (Or.inr rfl)
      fun g hg => hg.resolve_right (fun h => h.1 _ _ hu) ▸ rfl
    have heq : d' = d := (hload d rfl).1 d' hc
    exact heq ▸ ⟨hl, hj, .root hm hfits hu hp⟩

/-! ## Recovery -/

/-- through the end of the password -/
def PASSWORD_END : ℕ := (passwordHead "root").length + 32

theorem interrupted_new : Interrupted P nk (Disk.new : Disk W) := ⟨rfl, rfl, .fresh rfl rfl rfl⟩

theorem get_root {u : String} {rec : UserRecord W} (h : (UserStore.empty.upsert (rootRecord S "root")).get u = some rec) :
    u = "root" ∧ rec = rootRecord S "root" := by
  rw [UserStore.get_upsert] at h
  split at h
  next heq => exact ⟨heq.symm, (Option.some.inj h).symm⟩
  next => exact absurd (h.symm.trans Std.TreeMap.getElem?_emptyc) nofun

/-- only the password that was drawn opens root's record -/
theorem opensAdmin_root {pw : Bytes} {i : Slot} : OpensAdmin (rootRecord S "root" : UserRecord W) pw i ↔ i = S.realSlot ∧ pw = S.rootPassword := by
  constructor
  · intro h
    obtain ⟨payload, hopen, -⟩ := h.unwrapAt
    rw [unwrapAt_newSlotsRandom rfl] at hopen
    by_contra hne
    rw [if_neg hne] at hopen
    cases hopen
  · rintro ⟨rfl, rfl⟩
    exact opensAdmin_newSlots rfl rfl

/-- the file shows root's password exactly if it is long enough -/
theorem shows_iff {n : ℕ} : Shows ((passwordText "root" S.rootPassword).take n) "root" S.rootPassword ↔
    PASSWORD_END ≤ ((passwordText "root" S.rootPassword).take n).length := by
  constructor
  · intro ⟨rest, heq, _⟩
    rw [heq, List.length_append, List.length_append, S.rootPassword.2]
    exact Nat.le_add_right _ _
  · intro hle
    have hlen : (passwordHead "root" ++ S.rootPassword.1).length = PASSWORD_END := by
      rw [List.length_append, S.rootPassword.2]
      rfl
    rw [List.length_take] at hle
    refine ⟨(utf8 "\n").take (n - PASSWORD_END), ?_, ?_⟩
    · rw [passwordText, List.take_append, hlen, List.take_of_length_le (hlen.trans_le (hle.trans (min_le_left _ _)))]
    · rcases Nat.eq_zero_or_pos (n - PASSWORD_END) with hzero | hpos
      · exact Or.inl (by rw [hzero, List.take_zero])
      · exact Or.inr (List.take_of_length_le hpos)

theorem servesAdmin_root (hu : d.users = some (.sealed (deriveUserStoreFileKey P nk) (UserStore.empty.upsert (rootRecord S "root")))) :
    ServesAdmin P nk d ↔ ∃ file, d.passwordFile = some file ∧ Shows file "root" S.rootPassword := by
  constructor
  · intro ⟨users, u, rec, pw, i, file, husers, hget, _, hopens, hfile, hshows⟩
    rw [hu] at husers
    cases husers
    obtain ⟨rfl, rfl⟩ := get_root hget
    exact ⟨file, hfile, (opensAdmin_root.1 hopens).2 ▸ hshows⟩
  · intro ⟨file, hfile, hshows⟩
    exact ⟨_, "root", rootRecord S "root", S.rootPassword, S.realSlot, file, hu, UserStore.get_upsert.trans (if_pos rfl), rfl,
      opensAdmin_root.2 ⟨rfl, rfl⟩, hfile, hshows⟩

/-- what the boot without faults does is all there is to it -/
theorem recovers_iff_of {Q : Disk W → Prop} (h : ∀ S : Surroundings, ∃ C, Spec (fun u => u = d) (boot P nk S) (fun _ => Q)
    (fun _ u => Fails S C u) C) (S : Surroundings) (hS : S.Faultless) :
    (boot P nk S).result d = .ok () ∧ Q ((boot P nk S).final d) := by
  obtain ⟨C, hspec⟩ := h S
  obtain ⟨-, hok, herr⟩ := hspec d rfl
  cases hr : (boot P nk S).result d with
  | ok r => exact ⟨rfl, hok r hr⟩
  | error e => exact absurd hS (herr e hr).1

theorem slots_pos : 0 < CREDENTIAL_SLOTS := by decide

def someSurroundings : Surroundings := ⟨fun _ => none, ⟨List.replicate 32 97, rfl⟩, ⟨0, slots_pos⟩, fun _ => someDraw, ⟨65536, 3, 4, []⟩, 0⟩

theorem Interrupted.recovers_iff (h : Interrupted P nk d) :
    Recovers P nk d ↔ d.manifest = none ∨ ∃ file, d.passwordFile = some file ∧ PASSWORD_END ≤ file.length := by
  obtain ⟨hl, hj, hphase⟩ := h
  cases hphase with
  | fresh hm hu hp =>
    refine iff_of_true (fun S hS => ?_) (Or.inl hm)
    obtain ⟨hok, hfinal⟩ := recovers_iff_of (Q := fun u => ∃ S, u = { d.setUp P nk S with passwordFile := some (passwordText "root" S.rootPassword) })
      (fun S => ⟨_, (boot_setUp_spec hl hj hm hu hp).conseq (fun _ hu => hu) (fun _ _ hq => ⟨S, hq⟩) (fun _ _ he => he) fun _ hc => hc⟩) S hS
    obtain ⟨S', hfinal⟩ := hfinal
    refine ⟨hok, ?_⟩
    rw [hfinal, servesAdmin_root rfl]
    exact ⟨_, rfl, utf8 "\n", rfl, Or.inr rfl⟩
  | torn hm hu hp =>
    refine iff_of_false (fun hrec => ?_) ?_
    · have hok := (hrec someSurroundings fun _ => rfl).1
      exact (boot_torn_spec hl hj hm d rfl).2.1 () hok
    · rw [hm, hp]
      simp
  | unset hm hfits hu hp =>
    refine iff_of_false (fun hrec => ?_) ?_
    · have hload := @boot_load_spec W P nk someSurroundings d (fun _ => True) _ hj (verifyNodeKey_fits hl hm hfits) hu (Or.inl rfl)
        fun _ _ => trivial
      obtain ⟨hok, users, u, rec, pw, i, file, husers, hget, -⟩ := hrec someSurroundings fun _ => rfl
      rw [(hload d rfl).2.1 () hok] at husers
      cases husers
      exact absurd (hget.symm.trans Std.TreeMap.getElem?_emptyc) nofun
    · rw [hm, hp]
      simp
  | @root m S hm hfits hu hp =>
    have hload : ∀ T, Spec (fun u => u = d) (boot P nk T) (fun _ u => u = d) (fun _ u => Fails T (fun u => u = d) u) (fun u => u = d) := by
      intro T
      refine (@boot_load_spec W P nk T d (fun u => u = d) _ hj (verifyNodeKey_fits hl hm hfits) (opensAs_root hu) (Or.inr rfl)
        fun g hg => hg.resolve_right (fun h => h.1 _ _ hu) ▸ rfl).conseq (fun _ hu => hu) (fun _ u hq => ?_) (fun _ _ he => he) fun _ hc => hc
      rw [hq, ← hu]
    have hserves : Recovers P nk d ↔ ServesAdmin P nk d := by
      constructor
      · intro hrec
        obtain ⟨hok, hserves⟩ := hrec someSurroundings fun _ => rfl
        rw [(hload someSurroundings d rfl).2.1 () hok] at hserves
        exact hserves
      · intro hserves T hT
        obtain ⟨hok, hfinal⟩ := recovers_iff_of (Q := fun u => u = d) (fun T => ⟨_, hload T⟩) T hT
        exact ⟨hok, hfinal.symm ▸ hserves⟩
    rw [hserves, servesAdmin_root hu]
    constructor
    · intro ⟨file, hfile, hshows⟩
      rcases hp with hnone | ⟨n, hn⟩
      · exact absurd (hfile.symm.trans hnone) nofun
      · cases hfile.symm.trans hn
        exact Or.inr ⟨_, hfile, shows_iff.1 hshows⟩
    · intro hcond
      obtain ⟨file, hfile, hlong⟩ := hcond.resolve_left fun hnone => absurd (hm.symm.trans hnone) nofun
      rcases hp with hnone | ⟨n, hn⟩
      · exact absurd (hfile.symm.trans hnone) nofun
      · cases hfile.symm.trans hn
        exact ⟨_, hfile, shows_iff.2 hlong⟩

theorem setsUp_iff (h : Interrupted P nk d) : SetsUp P nk d ↔ d.manifest = none := by
  obtain ⟨hl, -, hphase⟩ := h
  cases hphase with
  | fresh hm hu hp => exact iff_of_true ⟨_, verifyNodeKey_fresh hl hm hu⟩ hm
  | torn hm hu hp =>
    refine iff_of_false ?_ fun hnone => absurd (hm.symm.trans hnone) nofun
    intro ⟨path, hv⟩
    exact absurd ((verifyNodeKey_torn hl hm).symm.trans hv) nofun
  | unset hm hfits hu hp =>
    refine iff_of_false ?_ fun hnone => absurd (hm.symm.trans hnone) nofun
    intro ⟨path, hv⟩
    exact absurd ((verifyNodeKey_fits hl hm hfits).symm.trans hv) nofun
  | root hm hfits hu hp =>
    refine iff_of_false ?_ fun hnone => absurd (hm.symm.trans hnone) nofun
    intro ⟨path, hv⟩
    exact absurd ((verifyNodeKey_fits hl hm hfits).symm.trans hv) nofun

/-- **First boot, interrupted.** Whatever a first boot and any number of further boots with the same node key leave, each cut at any point or
ended by any I/O error: a boot without faults serves, with an administrator whose password is in the file, exactly if the manifest is not
there or the file holds the password to its end. A set-up that is carried out again serves. -/
theorem first_boot_recovers_iff (P : Primitives) (nk : Bytes) (d : Disk W) (h : Crashes (boot P nk) Disk.new d) :
    (Recovers P nk d ↔ d.manifest = none ∨ ∃ file, d.passwordFile = some file ∧ PASSWORD_END ≤ file.length) ∧
      (SetsUp P nk d → Recovers P nk d) := by
  have hd : Interrupted P nk d := h.inv (fun _ _ _ hs hc => hs.step hc) interrupted_new
  exact ⟨hd.recovers_iff, fun hset => hd.recovers_iff.2 (Or.inl ((setsUp_iff hd).1 hset))⟩

def samplePrimitives : Primitives where
  aead := Aead.tagged
  hmacSha256 k _ := List.replicate 32 (k.headD 0)
  crc32 _ := 0
  aead_correct := Aead.tagged_correct
  length_hmac _ _ := List.length_replicate

theorem io_faultless {σ ε α : Type} (hS : S.Faultless) (step : Step) (error : String → ε) (p : Prog σ ε α) : io S step error p = p := by
  rw [io, hS step]
  rfl

theorem someSurroundings_faultless : someSurroundings.Faultless := fun _ => rfl

theorem first_boot_recovers_iff_uninterrupted :
    Recovers samplePrimitives [1] ((boot samplePrimitives [1] someSurroundings).final (Disk.new : Disk openWrap)) := by
  refine ((first_boot_recovers_iff samplePrimitives [1] _ (.tail someSurroundings (.refl _) (Crash.final _ _))).1).2 (Or.inr ?_)
  obtain ⟨-, S, hfinal⟩ := @recovers_iff_of openWrap samplePrimitives [1] Disk.new
    ( fun u => ∃ S, u = { Disk.new.setUp samplePrimitives [1] S with passwordFile := some (passwordText "root" S.rootPassword) })
    (fun S => ⟨_, (boot_setUp_spec rfl rfl rfl rfl rfl).conseq (fun _ hu => hu) (fun _ _ hq => ⟨S, hq⟩) (fun _ _ he => he) fun _ hc => hc⟩)
    someSurroundings someSurroundings_faultless
  refine ⟨passwordText "root" S.rootPassword, by rw [hfinal], ?_⟩
  rw [passwordText, List.length_append, List.length_append, S.rootPassword.2]
  exact Nat.le_add_right _ _

/-- a boot that ends when the manifest is whole -/
def manifestOnly : Disk openWrap := setManifest (.ok (newManifest samplePrimitives [1] someSurroundings)) Disk.new

theorem crash_manifestOnly : Crash (boot samplePrimitives [1] someSurroundings) Disk.new manifestOnly := by
  have hload : Prog.attempt (load samplePrimitives [1] someSurroundings) (Disk.new : Disk openWrap) =
      ([], (.ok (.error (.keystoreMissing "keystore.json")) : Except String _)) := rfl
  refine Crash.get_bind (Crash.silent_bind rfl (Crash.bind (Crash.silent_bind hload (Crash.bind (Crash.mapError ?_) _)) _))
  refine Crash.silent_bind rfl (Crash.get_bind (Crash.bind ?_ _))
  rw [writeManifest, io_faultless someSurroundings_faultless]
  exact Or.inr (List.mem_cons_of_mem _ List.mem_cons_self)

theorem manifest_only_strands : Crashes (boot samplePrimitives [1]) Disk.new manifestOnly ∧
    ∀ d, Crashes (boot samplePrimitives [1]) manifestOnly d → ¬SetsUp samplePrimitives [1] d ∧ ¬Recovers samplePrimitives [1] d := by
  have hcrash : Crashes (boot samplePrimitives [1]) Disk.new manifestOnly := .tail someSurroundings (.refl _) crash_manifestOnly
  have hstart : Interrupted samplePrimitives [1] manifestOnly := hcrash.inv (fun _ _ _ hs hc => hs.step hc) interrupted_new
  refine ⟨hcrash, fun d hd => ?_⟩
  have hkept : Interrupted samplePrimitives [1] d ∧ d.manifest ≠ none ∧ d.passwordFile = none := by
    refine hd.inv (I := fun d => Interrupted samplePrimitives [1] d ∧ d.manifest ≠ none ∧ d.passwordFile = none)
      (fun S u v hu hc => ?_) ⟨hstart, Option.some_ne_none _, rfl⟩
    obtain ⟨hi, hm, hp⟩ := hu
    obtain ⟨hm', hp'⟩ := crash_keeps hi hm hc
    exact ⟨hi.step hc, hm' ▸ hm, hp'.trans hp⟩
  obtain ⟨hi, hm, hp⟩ := hkept
  refine ⟨fun h => hm ((setsUp_iff hi).1 h), fun h => ?_⟩
  obtain ⟨file, hfile, -⟩ := (hi.recovers_iff.1 h).resolve_left hm
  exact absurd (hp.symm.trans hfile) nofun

end Y2q.FirstBoot
