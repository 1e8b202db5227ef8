import UtxoTracker.Store.LevelUpStore
/-!
# The layout gate

Every open reads the store's layout stamp first. A fresh store is stamped, a store of the current
layout is accepted, and anything else is refused as it stands.
-/

namespace UtxoTracker

open KeyedStore

/-- `STORE_LAYOUT_VERSION` -/
def storeLayoutVersion : Nat := 2

/-- `LEGACY_LAYOUT_VERSION` -/
def legacyLayoutVersion : Nat := 1

/-- `Number(text)` on text that matches `[1-9][0-9]*`; anything else is not a version. -/
def parseLayoutVersion (text : String) : Option Nat :=
  match text.toList with
  | [] => none
  | first :: rest =>
      if (first :: rest).all Char.isDigit ∧ first ≠ '0' then
        some ((first :: rest).foldl (fun n c => 10 * n + (c.toNat - '0'.toNat)) 0)
      else none

/-- What `getLayoutVersion` reads: `null`, a number or `NaN`. -/
inductive LayoutReading where
  | null
  | version (n : Nat)
  | nan
  deriving DecidableEq, Repr

def getLayoutVersion (db : Db) : LayoutReading :=
  match db[Key.layoutVersion]? with
  | some (.text text) =>
      match parseLayoutVersion text with
      | some n => .version n
      | none => .nan
  | some _ => .nan
  | none => if db.isEmpty then .null else .version legacyLayoutVersion

/-- `setLayoutVersion`, with its default version. -/
def setLayoutVersion (db : Db) : Db := db.insert .layoutVersion (.text "2")

/-- The two answers of an accepted open. -/
inductive LayoutAnswer where
  | current
  | empty
  deriving DecidableEq, Repr

/-- Why a store is refused, with what the refusal says of it. -/
inductive LayoutRefusal where
  | unreadable (raw : String)
  | newer (version : Nat)
  | noTip
  | older (version : Nat) (height : Int)
  deriving DecidableEq, Repr

/-- The refusal of the store `dbName`. -/
def LayoutRefusal.message (dbName : String) : LayoutRefusal → String
  | .unreadable raw =>
      "Store '" ++ dbName ++ "' has an unreadable layout stamp " ++ jsonString raw
        ++ "; this tracker requires layout " ++ toString storeLayoutVersion
        ++ ". Refusing to start. Rebuild the store with bulk sync, or reset it for a full rescan."
  | .newer version =>
      "Store '" ++ dbName ++ "' has layout version " ++ toString version
        ++ " but this tracker reads layout " ++ toString storeLayoutVersion
        ++ ". Refusing to start. Run a tracker release that reads layout " ++ toString version
        ++ ", rebuild the store with bulk sync, or reset it for a full rescan."
  | .noTip =>
      tooOld ("has data but no layout stamp and no tip, which a bulk load that stopped before its "
        ++ "final batch leaves")
  | .older version height =>
      tooOld ("has layout " ++ toString version ++ " (8-byte txid prefixes in its keys, indexed to "
        ++ "block " ++ toString height ++ ")")
where
  tooOld (why : String) : String :=
    "Store '" ++ dbName ++ "' " ++ why ++ "; this tracker requires layout "
      ++ toString storeLayoutVersion ++ " with full 32-byte txids. Refusing to start without "
      ++ "reading or changing the old keys. Rebuild the store with bulk sync, or reset it for a "
      ++ "full rescan."

/-- The stamp as it stands. Nothing but text is ever written there. -/
def rawStamp (db : Db) : String :=
  match db[Key.layoutVersion]? with
  | some (.text raw) => raw
  | _ => ""

/-- Accept or refuse a store. A refused store is left as it is. -/
def ensureLayoutVersion (db : Db) (stamp : Bool) : Except LayoutRefusal (LayoutAnswer × Db) :=
  match getLayoutVersion db with
  | .null => .ok (.empty, if stamp then setLayoutVersion db else db)
  | .nan => .error (.unreadable (rawStamp db))
  | .version n =>
      if n = storeLayoutVersion then .ok (.current, db)
      else if storeLayoutVersion ≤ n then .error (.newer n)
      else if (LevelUpStore.createDatabase db).getLastBlockHeight < 0 then .error .noTip
      else .error (.older n (LevelUpStore.createDatabase db).getLastBlockHeight)

@[simp]
theorem parseLayoutVersion_stamp : parseLayoutVersion "2" = some storeLayoutVersion := by decide

/-- A store that carries the current stamp is accepted unchanged. -/
theorem ensureLayoutVersion_of_stamp {db : Db}
    (hstamp : db[Key.layoutVersion]? = some (.text "2")) (stamp : Bool) :
    ensureLayoutVersion db stamp = .ok (.current, db) := by
  simp [ensureLayoutVersion, getLayoutVersion, hstamp]

end UtxoTracker
