/-
The bucket keys that a session keeps open (`auth/session.rs`, `bucket_keys.rs`).

A session keeps each bucket secret key that it has opened, under the bucket's name and the epoch, up to 32 of them; the oldest goes
first. `resolve_read_key` asks these before it opens the grant in the config. The copies are sealed under a key of the process; opening
one that the session itself has sealed gives back what was sealed.

- `BucketKeyCache`: `get`, `insert`. `get_insert`: an answer after an insertion is the key inserted or an answer from before.
- `resolveReadKey`, `isVisible`: with the session as it is afterwards.
-/
import Mathlib.Tactic
import Y2q.Auth.Users
import Y2q.Daemon.BucketKeys

namespace Y2q.BucketKeys

/-! ## The cache -/

structure BucketKeyCache where
  entries : String → UInt32 → Option Bytes
  order : List (String × UInt32)

def BucketKeyCache.empty : BucketKeyCache := ⟨fun _ _ => none, []⟩

def MAX_SESSION_BUCKET_KEYS : ℕ := 32

namespace BucketKeyCache

def get (c : BucketKeyCache) (bucket : String) (epoch : UInt32) : Option Bytes := c.entries bucket epoch

/-- the entries with the one for `id` replaced -/
def setEntry (entries : String → UInt32 → Option Bytes) (id : String × UInt32) (key : Option Bytes) : String → UInt32 → Option Bytes :=
  fun bucket epoch => if (bucket, epoch) = id then key else entries bucket epoch

/-- `push_back`, and the oldest goes if that is one too many -/
def makeRoom (c : BucketKeyCache) (id : String × UInt32) : BucketKeyCache :=
  match c.order ++ [id] with
  | [] => c
  | oldest :: rest =>
    if rest.length ≥ MAX_SESSION_BUCKET_KEYS then ⟨setEntry c.entries oldest none, rest⟩ else ⟨c.entries, oldest :: rest⟩

def insert (c : BucketKeyCache) (bucket : String) (epoch : UInt32) (key : Bytes) : BucketKeyCache :=
  let c := if (c.entries bucket epoch).isNone then c.makeRoom (bucket, epoch) else c
  ⟨setEntry c.entries (bucket, epoch) (some key), c.order⟩

variable {c : BucketKeyCache} {b bucket : String} {e epoch : UInt32} {key k : Bytes}

theorem get_makeRoom {id : String × UInt32} (h : (c.makeRoom id).entries b e = some k) : c.entries b e = some k := by
  unfold makeRoom at h
  split at h
  next => exact h
  next oldest rest _ =>
    split at h
    next =>
      by_cases heq : (b, e) = oldest
      · exact absurd ((if_pos heq).symm.trans h) nofun
      · exact (if_neg heq).symm.trans h
    next => exact h

theorem get_insert (h : (c.insert bucket epoch key).get b e = some k) : b = bucket ∧ e = epoch ∧ k = key ∨ c.get b e = some k := by
  by_cases heq : (b, e) = (bucket, epoch)
  · obtain ⟨rfl, rfl⟩ := Prod.mk.inj heq
    exact Or.inl ⟨rfl, rfl, (Option.some.inj ((if_pos rfl).symm.trans h)).symm⟩
  · right
    replace h : (if (c.entries bucket epoch).isNone then c.makeRoom (bucket, epoch) else c).entries b e = some k :=
      (if_neg heq).symm.trans h
    split at h
    · exact get_makeRoom h
    · exact h

end BucketKeyCache

/-! ## Sessions -/

structure SessionInfo where
  username : String
  role : Auth.Role
  persona : ℕ
  identitySk : Bytes
  bucketKeys : BucketKeyCache

variable {S : Sealing}

/-- what the session would open in the config, without its cache -/
def SessionInfo.openKey (session : SessionInfo) (config : BucketConfig S) (bucket : String) (epoch : UInt32) : Except Error Bytes :=
  readKey config bucket epoch session.username session.persona session.identitySk

def resolveReadKey (session : SessionInfo) (config : BucketConfig S) (bucket : String) (epoch : UInt32) :
    Except Error Bytes × SessionInfo :=
  match session.bucketKeys.get bucket epoch with
  | some cached => (.ok cached, session)
  | none =>
    match session.openKey config bucket epoch with
    | .error e => (.error e, session)
    | .ok sk => (.ok sk, { session with bucketKeys := session.bucketKeys.insert bucket epoch sk })

def isVisible (session : SessionInfo) (config : BucketConfig S) (bucket : String) : Bool × SessionInfo :=
  match currentKey config with
  | none => (false, session)
  | some kv =>
    let (key, session) := resolveReadKey session config bucket kv.epoch
    (key.isOk, session)

variable {session : SessionInfo} {config : BucketConfig S} {bucket : String} {epoch : UInt32}

theorem resolveReadKey_uncached (h : session.bucketKeys.get bucket epoch = none) :
    (resolveReadKey session config bucket epoch).1 = session.openKey config bucket epoch := by
  unfold resolveReadKey
  rw [h]
  cases session.openKey config bucket epoch <;> rfl

/-- only the cache changes -/
theorem resolveReadKey_same (session : SessionInfo) (config : BucketConfig S) (bucket : String) (epoch : UInt32) :
    ∃ cache, (resolveReadKey session config bucket epoch).2 = { session with bucketKeys := cache } := by
  unfold resolveReadKey
  split
  · exact ⟨session.bucketKeys, rfl⟩
  · split
    · exact ⟨session.bucketKeys, rfl⟩
    · exact ⟨_, rfl⟩

/-- what is in the cache afterwards was there before, or has been opened in the config -/
theorem resolveReadKey_cached {b : String} {e : UInt32} {k : Bytes}
    (h : (resolveReadKey session config bucket epoch).2.bucketKeys.get b e = some k) :
    session.bucketKeys.get b e = some k ∨ b = bucket ∧ e = epoch ∧ session.openKey config bucket epoch = .ok k := by
  unfold resolveReadKey at h
  split at h
  · exact Or.inl h
  · split at h
    next => exact Or.inl h
    next sk hsk =>
      rcases BucketKeyCache.get_insert h with ⟨rfl, rfl, rfl⟩ | hold
      · exact Or.inr ⟨rfl, rfl, hsk⟩
      · exact Or.inl hold

theorem isVisible_none (h : currentKey config = none) : isVisible session config bucket = (false, session) := by
  unfold isVisible
  rw [h]

theorem isVisible_some {kv : BucketKeyVersion S} (h : currentKey config = some kv) :
    isVisible session config bucket = ((resolveReadKey session config bucket kv.epoch).1.isOk,
      (resolveReadKey session config bucket kv.epoch).2) := by
  unfold isVisible
  rw [h]

end Y2q.BucketKeys
