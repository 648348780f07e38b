import Mathlib.Algebra.GroupWithZero.Nat
import Optionia.Lib.Query
import Optionia.Lib.Calls
/-!
# Uploaded artwork, and what cleans it up

The plugin keeps a customer's file in a directory and a row about it in
`optionia_uploads`; an order line records in its meta what was selected, tokens
of uploads among it. A row is claimed by one order, and from then on it does
not expire.
-/

namespace Optionia.Uploads

open Query

/-! ## What is kept -/

/-- A row of `optionia_uploads`. Tokens, and names of files, are drawn at random,
each another. -/
structure Upload where
  token : ℕ
  sessionKey : String
  storedName : ℕ
  sizeBytes : ℕ
  expiresAt : Option ℕ
  orderId : Option ℕ
  deriving DecidableEq

/-- A file of the upload directory. -/
structure StoredFile where
  name : ℕ
  modified : ℕ
  deriving DecidableEq

/-- An order line's selections, as its meta has them. -/
structure Line where
  orderId : ℕ
  tokens : List ℕ
  /-- The tokens that occur somewhere in the text of it. -/
  mentions : List ℕ
  pos : 0 < orderId
  sub : ∀ t ∈ tokens, t ∈ mentions
  deriving DecidableEq

/-- **What the store keeps of uploads.** -/
structure Data where
  now : ℕ := 0
  fresh : ℕ := 0
  uploads : List Upload := []
  files : List StoredFile := []
  lines : List Line := []
  /-- Every line that was ever recorded, the first of them first. No statement
  reads it. -/
  recorded : List Line := []
  /-- The orders whose deletion has begun. No statement reads it. -/
  deleted : List ℕ := []
  /-- The files that were stored and whose rows are to be written. No statement
  reads it. -/
  pending : List ℕ := []

/-! ## Statements -/

def orphanTtl : ℕ := 259200

def maxFiles : ℕ := 20

def maxBytes : ℕ := 104857600

def Data.heldBy (data : Data) (sessionKey : String) : List Upload :=
  data.uploads.filter fun upload => decide (upload.sessionKey = sessionKey) && upload.orderId.isNone

/-- Whether `INSERT … SELECT … WHERE` inserts. -/
def Data.withinQuota (data : Data) (sessionKey : String) (sizeBytes : ℕ) : Bool :=
  decide ((data.heldBy sessionKey).length + 1 ≤ maxFiles) &&
    decide (((data.heldBy sessionKey).map Upload.sizeBytes).sum + sizeBytes ≤ maxBytes)

/-- The row `create` inserts. -/
def Data.newUpload (data : Data) (sessionKey : String) (sizeBytes storedName : ℕ) : Upload where
  token := data.fresh
  sessionKey
  storedName
  sizeBytes
  expiresAt := some (data.now + orphanTtl)
  orderId := none

/-- `UploadRepository::create`, where the row is within the session's quota. -/
def Data.create (data : Data) (sessionKey : String) (sizeBytes storedName : ℕ) : Option Data :=
  if data.withinQuota sessionKey sizeBytes then
    some { data with
      uploads := data.uploads ++ [data.newUpload sessionKey sizeBytes storedName]
      fresh := data.fresh + 1
      pending := data.pending.filter (· ≠ storedName) }
  else none

def Data.find (data : Data) (token : ℕ) : Option Upload :=
  data.uploads.find? fun upload => upload.token = token

/-- The outcomes of a claim. -/
inductive ClaimOutcome where
  | claimed
  | alreadyOurs
  | taken
  | error
  deriving DecidableEq

/-- What `UPDATE … WHERE token = … AND order_id IS NULL` makes of a row. -/
def Upload.claimedFor (token orderId : ℕ) (upload : Upload) : Upload :=
  if upload.token = token ∧ upload.orderId = none then
    { upload with orderId := some orderId, expiresAt := none }
  else upload

def Data.claim (data : Data) (failed : Bool) (token orderId : ℕ) : Data × ClaimOutcome :=
  if orderId = 0 then (data, .taken)
  else if failed then (data, .error)
  else
    ({ data with uploads := data.uploads.map (Upload.claimedFor token orderId) },
      if data.uploads.any fun upload => decide (upload.token = token) && upload.orderId.isNone then
        .claimed
      else if (data.find token).bind Upload.orderId = some orderId then .alreadyOurs
      else .taken)

def Data.expired (data : Data) (limit : ℕ) : List Upload :=
  (orderBy (asc fun upload => upload.expiresAt.getD 0) (data.uploads.filter fun upload =>
    upload.orderId.isNone && upload.expiresAt.any fun expiresAt => expiresAt < data.now)).take
      (max 1 limit)

def Data.delete (data : Data) (failed : Bool) (token : ℕ) : Data :=
  if failed then data
  else { data with uploads := data.uploads.filter fun upload => upload.token ≠ token }

/-- `wp_delete_file` -/
def Data.deleteFile (data : Data) (failed : Bool) (name : ℕ) : Data :=
  if failed then data else { data with files := data.files.filter fun file => file.name ≠ name }

/-- The order of one of the lines that mention a token, whichever the database
comes to first. -/
def Data.orderReferringTo (data : Data) (failed : Bool) (pick token : ℕ) : ℕ :=
  if failed then 0
  else ((((data.lines.filter fun line => token ∈ line.mentions).rotate pick).head?).map
    Line.orderId).getD 0

/-- `UploadTokens::in_order` -/
def Data.tokensOf (data : Data) (orderId : ℕ) : List ℕ :=
  ((data.lines.filter fun line => line.orderId = orderId).flatMap Line.tokens).eraseDups

def Upload.belongsTo (upload : Upload) (orderId : ℕ) : Bool :=
  upload.orderId.all (· = orderId)

/-! ## Whose a token is -/

/-- The first order that recorded a token. -/
def Data.firstOf (data : Data) (token : ℕ) : Option ℕ :=
  (data.recorded.find? fun line => token ∈ line.tokens).map Line.orderId

def Data.stands (data : Data) (token : ℕ) : Bool :=
  (data.firstOf token).any fun orderId => orderId ∉ data.deleted

/-- The row of a token is there, and its file. -/
def Data.Holds (data : Data) (token : ℕ) : Prop :=
  ∃ upload ∈ data.uploads, upload.token = token ∧
    ∃ file ∈ data.files, file.name = upload.storedName

instance (data : Data) (token : ℕ) : Decidable (data.Holds token) :=
  inferInstanceAs (Decidable (∃ upload ∈ data.uploads, upload.token = token ∧
    ∃ file ∈ data.files, file.name = upload.storedName))

/-- **No artwork of an order that stands is missing.** -/
def Data.Kept (data : Data) : Prop := ∀ token, data.stands token = true → data.Holds token

/-! ## Who stores, claims and deletes uploads

An upload stores a file and writes its row; a checkout records a line and
claims its tokens. Three cleaners delete: the expirer unclaimed rows past their
deadline and their files, the sweeper files of no row, and retention the
uploads of an order that is deleted. Each goes one statement, one file or one
meta write at a time, any of which may fail, and any number of them run at
once.
-/

/-- What is asked for. -/
inductive Request where
  | upload (sessionKey : String) (sizeBytes : ℕ)
  | checkout (line : Line)
  | expire
  | sweep
  /-- An order is deleted, `UploadRetention::release` before it. -/
  | release (orderId : ℕ)
  deriving DecidableEq

/-- Who deletes an upload, and what is left for it to do. -/
inductive Cleaner where
  | expirer (rows : List Upload)
  /-- Retention, of an order, with tokens it has read. -/
  | retention (orderId : ℕ) (tokens : List ℕ)
  deriving DecidableEq

/-- How far a request is. The directory is as it was read: usable or not. -/
inductive Phase where
  | storing (sessionKey : String) (sizeBytes : ℕ)
  | creating (sessionKey : String) (sizeBytes storedName : ℕ)
  /-- It was refused, and the file is to be deleted. -/
  | discarding (storedName : ℕ)
  /-- The selections of a line are to be written. -/
  | recording (line : Line)
  | claiming (orderId : ℕ) (tokens : List ℕ)
  /-- The rows past their deadline are to be read. -/
  | expiring
  /-- Of each, it is to be asked which order refers to it. -/
  | asking (directory : Bool) (rows : List Upload)
  | repairing (directory : Bool) (token orderId : ℕ) (rows : List Upload)
  /-- The file of a row is to be deleted. -/
  | unlinking (directory : Bool) (upload : Upload) (cleaner : Cleaner)
  | dropping (directory : Bool) (token : ℕ) (cleaner : Cleaner)
  | scanning
  /-- The names that are known are to be read. -/
  | naming (entries : List ℕ)
  | timing (entries known : List ℕ)
  | sweeping (known : List ℕ) (cutoff removed : ℕ) (entries : List ℕ)
  /-- The tokens of an order are to be read. -/
  | releasing (orderId : ℕ)
  | finding (orderId : ℕ) (directory : Bool) (tokens : List ℕ)
  /-- The items of the order are to be deleted. -/
  | emptying (orderId : ℕ)
  | done
  deriving DecidableEq

/-- What a statement meets. -/
structure Input where
  waited : ℕ := 0
  failed : Bool := false
  modified : ℕ := 0
  directory : Bool := true
  pick : ℕ := 0
  /-- The names of print files that the orders' meta tell. -/
  printed : List ℕ := []

/-- `UploadExpirer::BATCH`, `UploadSweeper::BATCH` -/
def batch : ℕ := 200

def graceSeconds : ℕ := 3600

/-- The phase a request starts in. -/
def enter : Request → Phase
  | .upload sessionKey sizeBytes => .storing sessionKey sizeBytes
  | .checkout line => .recording line
  | .expire => .expiring
  | .sweep => .scanning
  | .release orderId => .releasing orderId

/-- What a cleaner goes on with. -/
def Cleaner.next (directory : Bool) : Cleaner → Phase
  | .expirer rows => .asking directory rows
  | .retention orderId tokens => .finding orderId directory tokens

def Data.isSweepable (data : Data) (entry : ℕ) (known : List ℕ) (cutoff : ℕ) : Bool :=
  decide (entry ∉ known) &&
    data.files.any fun file => decide (file.name = entry ∧ file.modified < cutoff)

/-- What time passed before a statement. -/
def Data.after (data : Data) (waited : ℕ) : Data := { data with now := data.now + waited }

/-- `UploadMover::move` -/
def Data.store (data : Data) (modified : ℕ) : Data :=
  { data with
    fresh := data.fresh + 1
    files := ⟨data.fresh, modified⟩ :: data.files
    pending := data.fresh :: data.pending }

/-- `add_meta_data`, of the selections of a line. -/
def Data.record (data : Data) (line : Line) : Data :=
  { data with lines := data.lines ++ [line], recorded := data.recorded ++ [line] }

/-- The file of an upload whose row was not written is pending no more. -/
def Data.refuse (data : Data) (storedName : ℕ) : Data :=
  { data with pending := data.pending.filter (· ≠ storedName) }

def Data.condemn (data : Data) (orderId : ℕ) : Data :=
  { data with deleted := orderId :: data.deleted }

def Data.deleteItems (data : Data) (failed : Bool) (orderId : ℕ) : Data :=
  if failed then data
  else { data with lines := data.lines.filter fun line => line.orderId ≠ orderId }

/-- **A request's next statement**, at the time it happens. -/
def statementAt (input : Input) (data : Data) : Phase → Data × Phase
  | .storing sessionKey sizeBytes =>
    if input.failed then (data, .done)
    else (data.store input.modified, .creating sessionKey sizeBytes data.fresh)
  | .creating sessionKey sizeBytes storedName =>
    match if input.failed then none else data.create sessionKey sizeBytes storedName with
    | some data => (data, .done)
    | none => (data.refuse storedName, .discarding storedName)
  | .discarding storedName => (data.deleteFile input.failed storedName, .done)
  | .recording line =>
    (if input.failed then data else data.record line, .claiming line.orderId line.tokens)
  | .claiming _ [] => (data, .done)
  | .claiming orderId (token :: tokens) =>
    ((data.claim input.failed token orderId).1, .claiming orderId tokens)
  | .expiring =>
    (data, if input.failed then .done else .asking input.directory (data.expired batch))
  | .asking _ [] => (data, .done)
  | .asking directory (upload :: rows) =>
    let owner := data.orderReferringTo input.failed input.pick upload.token
    (data, if 0 < owner then .repairing directory upload.token owner rows
      else .unlinking directory upload (.expirer rows))
  | .repairing directory token orderId rows =>
    ((data.claim input.failed token orderId).1, .asking directory rows)
  | .unlinking directory upload cleaner =>
    (if directory then data.deleteFile input.failed upload.storedName else data,
      .dropping directory upload.token cleaner)
  | .dropping directory token cleaner => (data.delete input.failed token, cleaner.next directory)
  | .scanning =>
    (data, if input.failed || !input.directory then .done
      else .naming (data.files.map StoredFile.name))
  | .naming entries =>
    -- A read that fails is a list of no names.
    (data, .timing entries
      ((if input.failed then [] else data.uploads.map Upload.storedName) ++ input.printed))
  | .timing entries known => (data, .sweeping known (data.now - graceSeconds) 0 entries)
  | .sweeping _ _ _ [] => (data, .done)
  | .sweeping known cutoff removed (entry :: entries) =>
    if batch ≤ removed then (data, .done)
    else if data.isSweepable entry known cutoff then
      (data.deleteFile input.failed entry, .sweeping known cutoff (removed + 1) entries)
    else (data, .sweeping known cutoff removed entries)
  | .releasing orderId =>
    (data.condemn orderId, if orderId = 0 then .emptying orderId
      else .finding orderId input.directory (if input.failed then [] else data.tokensOf orderId))
  | .finding orderId _ [] => (data, .emptying orderId)
  | .finding orderId directory (token :: tokens) =>
    match if input.failed then none else data.find token with
    | some upload =>
      (data, if upload.belongsTo orderId then
          .unlinking directory upload (.retention orderId tokens)
        else .finding orderId directory tokens)
    | none => (data, .finding orderId directory tokens)
  | .emptying orderId => (data.deleteItems input.failed orderId, .done)
  | .done => (data, .done)

/-- A statement, after the time that passed. -/
def statement (input : Input) (data : Data) (phase : Phase) : Data × Phase :=
  statementAt input (data.after input.waited) phase

/-- **The store's uploads.** Anything can be asked at any time. -/
def uploads : Calls.System Data Request Phase Input where
  enter _ request := some (enter request)
  statement := statement

/-- What is kept, and what is under way. -/
abbrev State := Calls.State Data Request Phase

abbrev Action := Calls.Action Request Input

/-- A store before its first upload. -/
def opening : State := ⟨{}, []⟩

end Optionia.Uploads
