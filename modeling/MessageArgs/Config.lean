import MessageArgs.Error

/-!
# Configuration

Three settings: how deep arguments may nest, what happens to a dictionary key that comes twice, and
whether object paths are checked while encoding. `DuplicateKeys.apply` carries out the second one
on items tagged with the fingerprints of their keys.
-/

namespace MessageArgs

/-- What to do with a dictionary key that comes twice. -/
inductive DuplicateKeys
  /-- The dictionary is refused. -/
  | reject
  /-- The first place and the last value are kept. -/
  | lastWriteWins
deriving DecidableEq, Repr

namespace DuplicateKeys

variable {α : Type}

/-- Puts an item in the place of the one with the same fingerprint. -/
def overwrite (fingerprint : String) (item : α) : List (String × α) → List (String × α)
  | [] => []
  | (name, old) :: rest =>
    if name = fingerprint then (name, item) :: rest
    else (name, old) :: overwrite fingerprint item rest

/-- Takes in one more item. -/
def place (policy : DuplicateKeys) (kept : List (String × α)) (keyed : String × α) :
    Except CodecError (List (String × α)) :=
  if kept.any fun old => old.1 = keyed.1 then
    match policy with
    | reject => .error (.duplicateKey keyed.1)
    | lastWriteWins => .ok (overwrite keyed.1 keyed.2 kept)
  else
    .ok (kept ++ [keyed])

/-- The items that remain of a list of items tagged with their fingerprints. -/
def apply (policy : DuplicateKeys) (keyed : List (String × α)) : Except CodecError (List α) :=
  (keyed.foldlM (place policy) []).map fun kept => kept.map Prod.snd

end DuplicateKeys

/-- The settings of encoding and decoding. -/
structure CodecConfig where
  /-- The greatest depth of an argument that encoding builds. -/
  maxDepth : Nat := 64
  /-- What happens to a dictionary key that comes twice, both ways. -/
  duplicateKeys : DuplicateKeys := .reject
  /-- Whether encoding refuses object paths that are none. -/
  validateObjectPaths : Bool := true
deriving DecidableEq, Repr

/-- The settings that apply unless others are given. -/
def CodecConfig.standard : CodecConfig := {}

end MessageArgs
