import TypedSheets.Schema
import TypedSheets.Session.Memory

/-!
# Root types

The type that a relation finally stores. A relation leads to a column of another table, whose type
may be a relation again; the chain ends at a type that is none, or at a sequence, which is stored as
a plain integer. A link of the chain that allows empty cells makes the whole chain allow them.

## Main definitions

* `Schemas.linked` — the column a relation leads to.
* `Schemas.rootFrom` — the root type of an annotation, given the links passed already.
* `Schemas.rootType` — the root type of an annotation, remembered.

## Design

Links are pairs of a table and a column, so that a chain may pass through one table twice, but not
through one column. There are finitely many links, which is why chains end.
-/

namespace TypedSheets.Schemas

/-- Every pair of a table and one of its columns. -/
def links (ss : Schemas) : List (String × String) :=
  ss.entries.flatMap fun e => e.2.columns.values.map fun c => (e.1, c.name)

/-- The column a relation leads to: the one it names, or else the key of the table. -/
def linked (ss : Schemas) (target : Target) : Except Failure SchemaColumn :=
  match ss.find? target.table with
  | none => .error (.undefinedTable target.table)
  | some schema =>
    match target.column with
    | some column =>
      match schema.columns.find? column with
      | some c => .ok c
      | none => .error (.undefinedColumn column target.table)
    | none =>
      match schema.key? with
      | some c => .ok c
      | none => .error (.unkeyedTable target.table)

/-- The column a relation leads to is one of its table. -/
theorem exists_mem_of_linked {ss : Schemas} {target : Target} {c : SchemaColumn}
    (h : ss.linked target = .ok c) :
    ∃ schema, ss.find? target.table = some schema ∧ c ∈ schema.columns.values := by
  unfold linked at h
  split at h
  · cases h
  · rename_i schema hs
    refine ⟨schema, hs, ?_⟩
    split at h
    · split at h
      · rename_i hc
        cases h
        exact Keyed.mem_values_of_find? hc
      · cases h
    · split at h
      · rename_i hk
        cases h
        exact Schema.mem_values_of_key? hk
      · cases h

/-- The column a relation leads to is a link of its table. -/
theorem mem_links_of_linked {ss : Schemas} {target : Target} {c : SchemaColumn}
    (h : ss.linked target = .ok c) : (target.table, c.name) ∈ ss.links := by
  obtain ⟨schema, hs, hc⟩ := exists_mem_of_linked h
  exact List.mem_flatMap.2 ⟨_, Keyed.mem_of_find? hs, List.mem_map.2 ⟨c, hc, rfl⟩⟩

/-- A chain of relations that comes back to a column. -/
def relationCycle (path : List (String × String)) : Failure :=
  .reference ("relation cycle: " ++ Text.joinWith " -> " (path.map Prod.fst))

/-- The modifiers that are no part of a stored type. -/
def storedMask : Modifiers := Modifiers.complement { nullable := true }

/-- The root type of an annotation at the end of a chain that has passed the given links. -/
def rootFrom (ss : Schemas) (visited : List (String × String)) (type : String) :
    Except Failure String :=
  match TypeExpr.parse type with
  | .error f => .error f
  | .ok expr =>
    if expr.sequence then .ok (if expr.nullable then "int?" else "int")
    else match expr.relation? with
      | none => .ok (nake storedMask type)
      | some target =>
        match hl : ss.linked target with
        | .error f => .error f
        | .ok column =>
          let link := (target.table, column.name)
          if hnew : link ∈ visited then .error (relationCycle (visited ++ [link]))
          else
            have := Walk.remaining_lt (mem_links_of_linked hl) hnew
              (fun _ hx => List.mem_append_left [link] hx)
              (List.mem_append_right visited (List.mem_singleton.2 rfl))
            (rootFrom ss (visited ++ [link]) (nake .key column.type)).map fun root =>
              if expr.nullable then makeNullable root else root
termination_by Walk.remaining ss.links visited

/-- The root type of an annotation. -/
def rootType (ss : Schemas) (type : String) : Attempt String :=
  Attempt.remember (.root type) (Attempt.ofExcept (ss.rootFrom [] type))

end TypedSheets.Schemas
