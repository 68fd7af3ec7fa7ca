/-
AntzKV.Core.Object — metadata and the polymorphic object `db_object_t`.

`type` and `ptr` of the C struct are one value here, `ObjData`, so an
object cannot carry the tag of one data structure and the pointer of
another. A node id is a `char[16]` with its NUL inside, hence at most 15
characters; the `memcpy(…, 15)` that copies one therefore copies all of
it.

Clock readings are inputs: `usec` stands for `now_usec()`.
-/
import AntzKV.Core.Dlist
import AntzKV.Core.SimpleHt
import AntzKV.Core.Zskiplist

namespace AntzKV

/-- `NODE_ORIGIN_LEN` -/
def nodeOriginLen : Nat := 16

/-- The text in a `char[NODE_ORIGIN_LEN]`. -/
structure NodeOrigin where
  text : CStr
  short : text.strlen < nodeOriginLen
  deriving DecidableEq

namespace NodeOrigin

theorem ext {a b : NodeOrigin} (h : a.text = b.text) : a = b := by
  cases a; cases b
  simp_all

/-- A bounded copy into the array. -/
def ofCStr (s : CStr) : NodeOrigin where
  text := s.take (nodeOriginLen - 1)
  short := by
    simp only [CStr.strlen, CStr.take, List.length_take, nodeOriginLen]
    omega

/-- The array after `{…, ""}`. -/
def blank : NodeOrigin := ofCStr (CStr.lit "")

@[simp] theorem ofCStr_text (o : NodeOrigin) : ofCStr o.text = o := by
  apply ext
  have h : o.text.strlen < nodeOriginLen := o.short
  exact CStr.take_of_le (by simp only [nodeOriginLen] at h ⊢; omega)

end NodeOrigin

/-- `kv_meta_t`. -/
structure KvMeta where
  version : UInt64
  wallclock : UInt64
  origin : NodeOrigin
  deriving DecidableEq

/-- LWW comparator: `a > b`. -/
def metaGt (a b : KvMeta) : Bool :=
  if a.version ≠ b.version then decide (a.version > b.version)
  else if a.wallclock ≠ b.wallclock then decide (a.wallclock > b.wallclock)
  else strcmp a.origin.text b.origin.text == .gt

/-- `OBJ_STRING` … `OBJ_ZSET`. -/
inductive ObjType where
  | string
  | list
  | set
  | hash
  | zset
  deriving DecidableEq

/-- What `ptr` points at. -/
inductive ObjData (S : Type) where
  | string (s : CStr)
  | list (l : Dlist)
  | set (ht : SimpleHt)
  | hash (ht : SimpleHt)
  | zset (z : Zskiplist S)
  deriving DecidableEq

variable {S : Type}

def ObjData.type : ObjData S → ObjType
  | .string _ => .string
  | .list _ => .list
  | .set _ => .set
  | .hash _ => .hash
  | .zset _ => .zset

/-- `db_object_t`; `ttl` is -1 for no expiry, else the expiry in msec. -/
structure DbObject (S : Type) where
  data : ObjData S
  ttl : Int
  version : UInt64
  wallclock : UInt64
  origin : NodeOrigin
  deriving DecidableEq

namespace DbObject

def type (o : DbObject S) : ObjType := o.data.type

/-- The metadata of a stored object. -/
def kvMeta (o : DbObject S) : KvMeta := ⟨o.version, o.wallclock, o.origin⟩

/-- The fields `kv_set_object` overwrites when it is given a meta. -/
def stamp (o : DbObject S) : Option KvMeta → DbObject S
  | none => o
  | some m => { o with version := m.version, wallclock := m.wallclock, origin := m.origin }

/-- An object as `calloc` and the constructors leave it. -/
def objCreate (data : ObjData S) : DbObject S :=
  { data := data, ttl := -1, version := 0, wallclock := 0, origin := .blank }

def objCreateString (s : CStr) (usec : UInt64) : DbObject S :=
  { objCreate (.string s) with wallclock := usec }

def objCreateList : DbObject S := objCreate (.list .empty)

def objCreateSet : DbObject S := objCreate (.set .htCreate)

def objCreateHash : DbObject S := objCreate (.hash .htCreate)

def objCreateZset : DbObject S := objCreate (.zset .zslCreate)

/-! The type test of an object together with the cast of its `ptr`. -/

def string? (o : DbObject S) : Option CStr :=
  match o.data with
  | .string s => some s
  | _ => none

def list? (o : DbObject S) : Option Dlist :=
  match o.data with
  | .list l => some l
  | _ => none

def set? (o : DbObject S) : Option SimpleHt :=
  match o.data with
  | .set ht => some ht
  | _ => none

def hash? (o : DbObject S) : Option SimpleHt :=
  match o.data with
  | .hash ht => some ht
  | _ => none

def zset? (o : DbObject S) : Option (Zskiplist S) :=
  match o.data with
  | .zset z => some z
  | _ => none

theorem string?_eq_some_iff {o : DbObject S} {s : CStr} : o.string? = some s ↔ o.data = .string s := by
  rw [string?]
  cases o.data <;> simp

theorem list?_eq_some_iff {o : DbObject S} {l : Dlist} : o.list? = some l ↔ o.data = .list l := by
  rw [list?]
  cases o.data <;> simp

theorem set?_eq_some_iff {o : DbObject S} {ht : SimpleHt} : o.set? = some ht ↔ o.data = .set ht := by
  rw [set?]
  cases o.data <;> simp

theorem hash?_eq_some_iff {o : DbObject S} {ht : SimpleHt} : o.hash? = some ht ↔ o.data = .hash ht := by
  rw [hash?]
  cases o.data <;> simp

theorem zset?_eq_some_iff {o : DbObject S} {z : Zskiplist S} : o.zset? = some z ↔ o.data = .zset z := by
  rw [zset?]
  cases o.data <;> simp

end DbObject

end AntzKV
