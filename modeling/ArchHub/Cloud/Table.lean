import Mathlib
import ArchHub.Lib.Dict
import ArchHub.Python.Value

/-!
# The tables of the brain replica

A replica is one database: the table of fragments, the table of wiring, and the
`meta` table with the watermark and the keys its user has contributed to.  A
fragment comes from the wire with any of its fields left out; a row has the
source's defaults in their place.

* `writeRow`: `_write_fragment_row`, the one merge of all replicas.
* `fragmentHasSecret`, `safeKey`, `communityKeyOf`: what decides whether a fragment
  is taken and where it goes.

The two regular expressions of the secret gate, the tables of Unicode and the
parser of JSON text come from a `Host`; the theorems hold for every host.  A
`json` column holds the value whose text it stores.
-/

namespace ArchHub.Cloud

open Lib

/-- What is asked of the language and its libraries. -/
structure Host where
  /-- Whether a text carries a bare credential, once the references are cut out. -/
  secretLike : String → Bool
  /-- Whether a character is white space. -/
  space : Char → Bool
  /-- `str.lower()`. -/
  lower : String → String
  /-- `str.isalnum()` of a character. -/
  alnum : Char → Bool
  /-- `json.loads`, where it does not raise. -/
  loads : String → Option Value
  /-- `str(x)` of a value that is no text. -/
  str : Value → String
  /-- `repr(x)` of a text. -/
  repr : String → String

/-- `str.strip(chars)`. -/
def stripChars (drop : Char → Bool) (cs : List Char) : List Char :=
  ((cs.dropWhile drop).reverse.dropWhile drop).reverse

/-- `str.strip()`. -/
def Host.strip (host : Host) (s : String) : String := String.ofList (stripChars host.space s.toList)

/-- `x or d`, for a text that may be missing. -/
def orElse (x : Option String) (d : String) : String :=
  match x with
  | some s => if s = "" then d else s
  | none => d

/-- A text that is there and not empty. -/
def given (x : Option String) : Option String := x.filter (fun s => s ≠ "")

/-- A fragment, as it comes on the wire. -/
structure Fragment where
  id : Option String
  kind : Option String
  text : Option String
  subject : Option String
  predicate : Option String
  object : Option String
  scope : Option String
  visibility : Option String
  ownerUser : Option String
  projectId : Option String
  firmId : Option String
  confidence : Option String
  provenance : Value
  validFrom : Option String
  validUntil : Option String
  extra : Value
  extraJson : Value
  hlc : Option String
deriving DecidableEq

/-- A fragment without any field. -/
def Fragment.bare : Fragment :=
  ⟨none, none, none, none, none, none, none, none, none, none, none, none, .none, none, none,
    .none, .none, none⟩

/-- A row of `fragments`; its id is the key it is stored under. -/
structure Row where
  kind : String
  text : String
  subject : Option String
  predicate : Option String
  object : Option String
  scope : String
  visibility : String
  ownerUser : String
  projectId : Option String
  firmId : Option String
  confidence : String
  provenance : Value
  validFrom : Option String
  validUntil : Option String
  extra : Value
  hlc : String
  createdAt : String
  updatedAt : String
deriving DecidableEq

/-- A wire entry of a delta. -/
structure Wire where
  name : Option String
  deviceId : Option String
  kind : Option String
  endpoint : Option String
  status : Option String
deriving DecidableEq

/-- A row of `wiring`. -/
structure WireRow where
  kind : String
  endpoint : String
  status : String
  lastSeen : String
deriving DecidableEq

/-- The table of fragments. -/
abbrev Table := Dict String Row

/-- The database of one replica. -/
structure BrainReplica where
  fragments : Table
  wiring : Dict (String × String) WireRow
  lastHlc : Option String
  contributedFirmKeys : List String
  contributedCommunityKeys : List String

/-- A database with its schema only. -/
def BrainReplica.empty : BrainReplica := ⟨Dict.empty, Dict.empty, none, [], []⟩

/-- The watermark before there is one. -/
def zeroHlc : String := "0000000000000000.00000000"

/-- `last_hlc`. -/
def BrainReplica.watermark (r : BrainReplica) : String := r.lastHlc.getD zeroHlc

/-- A `dict` or `None` column: `value or {}`. -/
def orEmpty (v : Value) : Value := if v.truthy then v else .dict []

/-! ## The merge -/

/-- The row a fragment is inserted as. -/
def Row.ofFragment (owner stamp hlc : String) (frag : Fragment) : Row where
  kind := orElse frag.kind "fact"
  text := orElse frag.text ""
  subject := frag.subject
  predicate := frag.predicate
  object := frag.object
  scope := orElse frag.scope "user"
  visibility := orElse frag.visibility "private"
  ownerUser := owner
  projectId := frag.projectId
  firmId := frag.firmId
  confidence := orElse frag.confidence "extracted"
  provenance := orEmpty frag.provenance
  validFrom := frag.validFrom
  validUntil := frag.validUntil
  extra := orEmpty frag.extra
  hlc := hlc
  createdAt := stamp
  updatedAt := stamp

/-- The `SET` of `_write_fragment_row`. -/
def Row.merged (owner stamp hlc : String) (r : Row) (frag : Fragment) : Row :=
  let excluded := Row.ofFragment owner stamp hlc frag
  { r with
    text := excluded.text
    subject := excluded.subject
    predicate := excluded.predicate
    object := excluded.object
    scope := excluded.scope
    visibility := excluded.visibility
    ownerUser := excluded.ownerUser
    confidence := excluded.confidence
    provenance := excluded.provenance
    validFrom := excluded.validFrom
    validUntil := excluded.validUntil
    extra := excluded.extra
    hlc := excluded.hlc
    updatedAt := stamp }

/-- `_write_fragment_row`, for the owner it has settled on. -/
def writeRow (owner stamp fid hlc : String) (frag : Fragment) (t : Table) : Table :=
  match t.get? fid with
  | none => t.set fid (Row.ofFragment owner stamp hlc frag)
  | some r => if r.hlc < hlc then t.set fid (Row.merged owner stamp hlc r frag) else t

/-- The `SET` of `upsert_fragment`. -/
def Row.replaced (stamp hlc : String) (r : Row) (frag : Fragment) : Row :=
  { Row.ofFragment r.ownerUser stamp hlc frag with createdAt := r.createdAt }

/-! ## What decides where a fragment goes -/

mutual

/-- `_is_secret_anywhere`. -/
def isSecretAnywhere (host : Host) : Value → Bool
  | .str s => host.secretLike s
  | .dict es => isSecretInFields host es
  | .list xs => isSecretInList host xs
  | _ => false

/-- `_is_secret_anywhere` of the values of a dictionary. -/
def isSecretInFields (host : Host) : Fields → Bool
  | [] => false
  | (_, v) :: es => isSecretAnywhere host v || isSecretInFields host es

/-- `_is_secret_anywhere` of the members of a list. -/
def isSecretInList (host : Host) : List Value → Bool
  | [] => false
  | v :: vs => isSecretAnywhere host v || isSecretInList host vs

end

/-- `_is_secret_like`. -/
def isSecretLike (host : Host) (x : Option String) : Bool := x.any host.secretLike

/-- `_fragment_has_secret`: the reason, where there is one. -/
def fragmentHasSecret (host : Host) (frag : Fragment) : Option String :=
  let extra := if frag.extra = .none then frag.extraJson else frag.extra
  if isSecretLike host frag.text then some "text contains bare secret-like value"
  else if isSecretLike host frag.subject then some "subject contains bare secret-like value"
  else if isSecretLike host frag.object then some "object contains bare secret-like value"
  else if isSecretLike host frag.predicate then some "predicate contains bare secret-like value"
  else if isSecretAnywhere host extra then some "extra contains bare secret-like value"
  else none

/-- The characters a key may have beside letters and digits. -/
def keyMark (c : Char) : Bool := c = '.' || c = '_' || c = '-'

/-- `_safe_key`: the name of a shared replica's directory, or why the key has
none. -/
def safeKey (host : Host) (value : String) : Except String String :=
  let chars := (host.strip value).toList.map (fun c => if host.alnum c || keyMark c then c else '_')
  let cleaned := stripChars keyMark chars
  if value = "" then .error "scope key required"
  else if cleaned.isEmpty then .error ("unsafe scope key: " ++ host.repr value)
  else .ok (String.ofList (cleaned.take 128))

/-- `str(x)`. -/
def strOf (host : Host) : Value → String
  | .str s => s
  | v => host.str v

/-- `extra`, parsed where it is text. -/
def parsedExtra (host : Host) (frag : Fragment) : Value :=
  match (if frag.extra.truthy then frag.extra else frag.extraJson) with
  | .str s => (host.loads s).getD (.dict [])
  | v => v

/-- `extra.get("community_id")`, where it is given. -/
def extraCommunity (host : Host) (frag : Fragment) : Option String :=
  match (parsedExtra host frag).get? "community_id" with
  | some cid => if cid.truthy then some (strOf host cid) else none
  | none => none

/-- `_community_key_of`. -/
def communityKeyOf (host : Host) (frag : Fragment) : Option String :=
  match extraCommunity host frag with
  | some cid => some cid
  | none => match given frag.firmId with
    | some firm => some firm
    | none => if frag.predicate = some "community" then given frag.subject else none

/-- The scope a fragment is routed by. -/
def routedScope (host : Host) (frag : Fragment) : String :=
  host.lower (host.strip (orElse frag.scope "user"))

/-- `_SHARED_SCOPES`. -/
def sharedScope (scope : String) : Bool := scope = "firm" || scope = "community"

/-- A host for plain texts: no credentials, ASCII letters, blanks the only space. -/
def Host.plain : Host where
  secretLike _ := false
  space c := c = ' '
  lower s := String.ofList (s.toList.map Char.toLower)
  alnum c := c.isAlphanum
  loads _ := none
  str _ := ""
  repr s := "'" ++ s ++ "'"

end ArchHub.Cloud
