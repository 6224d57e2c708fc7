/-
**Errors.**  What can go wrong in the index layer, and how it is said.

Main definitions:

* `SizingFault` — why sizing options are refused;
* `IndexError` — the causes of failure;
* `IndexError.message` — their wording.
-/

set_option autoImplicit false

namespace GraphIndex

/-- Why the sizing options of a multiset are refused. -/
inductive SizingFault where
  /-- There would be no bucket. -/
  | noCapacity
  /-- The growth watermark is not a ratio above zero and up to one. -/
  | growLoad
  /-- The shrinking watermark is negative or not below half of the growth watermark. -/
  | shrinkLoad
  deriving DecidableEq, Repr

/-- The wording of a fault in sizing options. -/
def SizingFault.message : SizingFault → String
  | noCapacity => "initial_capacity must be positive"
  | growLoad => "grow_load must be in (0, 1]"
  | shrinkLoad => "shrink_load must be non-negative and below half of grow_load"

/-- A failure of the index layer. -/
inductive IndexError where
  /-- The key that was asked for is not among the indexed ones. -/
  | missingIndex (key : String) (known : List String)
  /-- The key is indexed already. -/
  | indexExists (key : String)
  /-- The permit was issued by another lock. -/
  | foreignPermit
  /-- The sizing options are refused. -/
  | invalidSizing (fault : SizingFault)
  /-- The configuration cannot be used. -/
  | configuration (reason : String)
  /-- Reading or writing failed. -/
  | io (reason : String)
  deriving DecidableEq, Repr

/-- The wording of an error. -/
def IndexError.message : IndexError → String
  | missingIndex key known =>
      "no index defined for key `" ++ key ++ "` (indexed keys: "
        ++ (if known.isEmpty then "none" else String.intercalate ", " known) ++ ")"
  | indexExists key => "index already exists for key `" ++ key ++ "`"
  | foreignPermit => "write permit does not belong to this structure's write lock"
  | invalidSizing fault => "invalid argument: " ++ fault.message
  | configuration reason => "configuration error: " ++ reason
  | io reason => "I/O error: " ++ reason

end GraphIndex
