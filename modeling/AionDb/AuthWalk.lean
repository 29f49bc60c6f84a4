import AionDb.AuthPlan

/-!
# The walks over a physical plan

`required_privileges` and `walk_physical_plan_exprs`, with the parts of a node
each of them leaves out written beside it, and what a node does to tables by
itself.
-/

namespace AionDb

open Worklist

inductive CatalogPrivilege where
  | select | insert | update | delete | create | usage | all | execute | trigger | references
  | connect | temporary | truncate
deriving DecidableEq

abbrev Requirement := CatalogPrivilege × RelationId

def conflictPrivileges (tableId : RelationId) : Option OnConflictActionPlan → List Requirement
  | some (.doUpdate _ _) => [(.update, tableId), (.select, tableId)]
  | _ => []

def returningPrivileges (tableId : RelationId) (returning : List TypedExpr) : List Requirement :=
  if returning.isEmpty then [] else [(.select, tableId)]

def targetPrivileges (tableId : RelationId) (filter : Option TypedExpr)
    (returning : List TypedExpr) : List Requirement :=
  if !returning.isEmpty || filter.isSome then [(.select, tableId)] else []

def otherPrivileges (tableId : RelationId) (others : List RelationId) : List Requirement :=
  (others.filter (· != tableId)).map (.select, ·)

def MergeActionPlan.privileges (targetTableId : RelationId) : MergeActionPlan → List Requirement
  | .update _ => [(.update, targetTableId)]
  | .delete => [(.delete, targetTableId)]
  | .insert _ => [(.insert, targetTableId)]
  | .insertDefaultValues => [(.insert, targetTableId)]
  | .doNothing => []

def mergeClausePrivileges (targetTableId : RelationId) (whenClauses : List MergeWhenClausePlan) :
    List Requirement :=
  whenClauses.flatMap fun clause => clause.action.privileges targetTableId

mutual

def requiredPrivileges : PhysicalPlan → List Requirement
  | .projectTable tableId _ | .aggregate tableId _ | .distributedScan tableId _ _
  | .hnswScan tableId => [(.select, tableId)]
  | .insertValues tableId _ onConflict returning =>
    (.insert, tableId) :: returningPrivileges tableId returning ++
      conflictPrivileges tableId onConflict
  | .insertSelect tableId _ source onConflict returning =>
    (.insert, tableId) :: requiredPrivileges source ++ returningPrivileges tableId returning ++
      conflictPrivileges tableId onConflict
  | .deleteFromTable tableId filter returning usingTableIds =>
    (.delete, tableId) :: otherPrivileges tableId usingTableIds ++
      targetPrivileges tableId filter returning
  | .truncateTable tableId => [(.delete, tableId)]
  | .updateTable tableId _ filter returning fromTableIds =>
    (.update, tableId) :: otherPrivileges tableId fromTableIds ++
      targetPrivileges tableId filter returning
  | .nestedLoopJoin left right _ _ | .hashJoin left right _ _ =>
    requiredPrivileges left ++ requiredPrivileges right
  | .broadcastHashJoin broadcast localPlan _ _ _ _ =>
    requiredPrivileges broadcast ++ requiredPrivileges localPlan
  | .partialAggregate source _ => requiredPrivileges source
  | .finalAggregate partials _ _ _ _ _ => requiredPrivilegesAll partials
  | .seqScan tableId => [(.select, tableId)]
  | .setOperation left right _ _ _ => requiredPrivileges left ++ requiredPrivileges right
  | .projectSource source _ | .aggregateSource source _ => requiredPrivileges source
  | .copyFrom tableId => [(.insert, tableId)]
  | .copyTo tableId => [(.select, tableId)]
  | .createTableAs source => requiredPrivileges source
  | .recursiveCte base recursive => requiredPrivileges base ++ requiredPrivileges recursive
  | .mergeTable targetTableId sourceTableId sourceSubqueryPlan _ whenClauses =>
    (.select, sourceTableId) :: (.select, targetTableId) ::
      requiredPrivilegesOf sourceSubqueryPlan ++ mergeClausePrivileges targetTableId whenClauses
  | .projectOnce _ | .lockingProjectTable _ _ | .nestedLoopIndexJoin _ _ _ _ _
  | .mergeJoin _ _ _ _ | .distributedAppend _ _ _ _ | .gather _ | .projectValues _ _ _ _ => []

def requiredPrivilegesAll : List PhysicalPlan → List Requirement
  | [] => []
  | plan :: plans => requiredPrivileges plan ++ requiredPrivilegesAll plans

def requiredPrivilegesOf : Option PhysicalPlan → List Requirement
  | none => []
  | some plan => requiredPrivileges plan

end

namespace PhysicalPlan

/-- The plans `walk_physical_plan_exprs` pushes for a popped plan. -/
def pushed : PhysicalPlan → List PhysicalPlan
  | .projectSource source _ | .aggregateSource source _ | .partialAggregate source _
  | .insertSelect _ _ source _ _ | .createTableAs source => [source]
  | .finalAggregate partials _ _ _ _ _ => partials
  | .nestedLoopJoin left right _ _ | .hashJoin left right _ _ | .setOperation left right _ _ _ =>
    [left, right]
  | .broadcastHashJoin broadcast localPlan _ _ _ _ => [broadcast, localPlan]
  | .recursiveCte base recursive => [base, recursive]
  | _ => []

/-- The plans below a node that neither walk goes on with. -/
def unrequired : PhysicalPlan → List PhysicalPlan
  | .nestedLoopIndexJoin left _ _ _ _ => [left]
  | .mergeJoin left right _ _ => [left, right]
  | .distributedAppend fragments _ _ _ => fragments
  | .gather child => [child]
  | _ => []

/-- The plans below a node that the walk over the expressions leaves out. -/
def unpushed : PhysicalPlan → List PhysicalPlan
  | .mergeTable _ _ sourceSubqueryPlan _ _ => sourceSubqueryPlan.toList
  | plan => plan.unrequired

def children (plan : PhysicalPlan) : List PhysicalPlan := plan.pushed ++ plan.unpushed

/-- The expressions `walk_physical_plan_exprs` visits at a popped plan. -/
def visited : PhysicalPlan → List TypedExpr
  | .projectTable _ clauses | .projectSource _ clauses => clauses.exprs
  | .distributedScan _ outputs filter => outputs ++ filter.toList
  | .aggregate _ grouping | .aggregateSource _ grouping => grouping.exprs
  | .partialAggregate _ groupBy => groupBy
  | .finalAggregate _ groupBy having orderBy limit offset =>
    groupBy ++ having.toList ++ sortExprs orderBy limit offset
  | .nestedLoopJoin _ _ condition clauses | .hashJoin _ _ condition clauses =>
    condition.toList ++ clauses.exprs
  | .broadcastHashJoin _ _ leftKeys rightKeys condition outputs =>
    leftKeys ++ rightKeys ++ condition.toList ++ outputs
  | .deleteFromTable _ filter returning _ => filter.toList ++ returning
  | .updateTable _ assignments filter returning _ => filter.toList ++ assignments ++ returning
  | .insertValues _ rows _ returning => rows.flatten ++ returning
  | .insertSelect _ _ _ _ returning => returning
  | _ => []

end PhysicalPlan

def conflictExprs : Option OnConflictActionPlan → List TypedExpr
  | some (.doUpdate assignments whereClause) => assignments ++ whereClause.toList
  | _ => []

def MergeActionPlan.exprs : MergeActionPlan → List TypedExpr
  | .update assignments => assignments
  | .insert values => values
  | _ => []

namespace PhysicalPlan

/-- The expressions of a node the walk does not visit. -/
def unvisited : PhysicalPlan → List TypedExpr
  | .projectOnce clauses | .lockingProjectTable _ clauses => clauses.exprs
  | .nestedLoopIndexJoin _ _ rightFilter residual clauses =>
    rightFilter.toList ++ residual.toList ++ clauses.exprs
  | .mergeJoin _ _ residual clauses => residual.toList ++ clauses.exprs
  | .setOperation _ _ orderBy limit offset | .distributedAppend _ orderBy limit offset =>
    sortExprs orderBy limit offset
  | .projectValues rows orderBy limit offset => rows.flatten ++ sortExprs orderBy limit offset
  | .insertValues _ _ onConflict _ => conflictExprs onConflict
  | .insertSelect _ assignments _ onConflict _ => assignments ++ conflictExprs onConflict
  | .mergeTable _ _ _ onCondition whenClauses =>
    onCondition :: whenClauses.flatMap fun clause => clause.condition.toList ++ clause.action.exprs
  | _ => []

def exprs (plan : PhysicalPlan) : List TypedExpr := plan.visited ++ plan.unvisited

/-- What a node reads and writes by itself, beside what its expressions read. -/
def touched : PhysicalPlan → List Requirement
  | .projectTable tableId _ | .lockingProjectTable tableId _ | .seqScan tableId
  | .aggregate tableId _ | .hnswScan tableId | .distributedScan tableId _ _ | .copyTo tableId
  | .nestedLoopIndexJoin _ tableId _ _ _ => [(.select, tableId)]
  | .truncateTable tableId => [(.delete, tableId)]
  | .copyFrom tableId => [(.insert, tableId)]
  | .insertValues tableId _ onConflict returning
  | .insertSelect tableId _ _ onConflict returning =>
    (.insert, tableId) :: returningPrivileges tableId returning ++
      conflictPrivileges tableId onConflict
  | .deleteFromTable tableId filter returning usingTableIds =>
    (.delete, tableId) :: usingTableIds.map (.select, ·) ++
      targetPrivileges tableId filter returning
  | .updateTable tableId _ filter returning fromTableIds =>
    (.update, tableId) :: fromTableIds.map (.select, ·) ++ targetPrivileges tableId filter returning
  | .mergeTable targetTableId sourceTableId _ _ whenClauses =>
    (.select, sourceTableId) :: (.select, targetTableId) ::
      mergeClausePrivileges targetTableId whenClauses
  | _ => []

end PhysicalPlan

/-! ## Rows read by the assignments of an update -/

/-- The parts of an item that are evaluated on the same row. -/
def CatalogTableIdWork.operands (w : CatalogTableIdWork) : List CatalogTableIdWork :=
  w.parts.filter fun
    | .expr _ => true
    | .logical _ => false

/-- Evaluating the expression reads one of the first `width` columns of the row it is evaluated on,
by itself or out of a subquery. -/
def TypedExpr.ReadsRow (width : Nat) (e : TypedExpr) : Prop :=
  ∃ ordinal < width,
    Below CatalogTableIdWork.operands (CatalogTableIdWork.expr e)
        (CatalogTableIdWork.expr (.columnRef ordinal)) ∨
      Below CatalogTableIdWork.parts (CatalogTableIdWork.expr e)
        (CatalogTableIdWork.expr (.outerColumnRef ordinal))

/-- The node is an update of `t` that computes new values from the old row. -/
def PhysicalPlan.AssignsFrom (width : RelationId → Nat) (t : RelationId) : PhysicalPlan → Prop
  | .updateTable tableId assignments _ _ _ => t = tableId ∧ ∃ a ∈ assignments, a.ReadsRow (width t)
  | _ => False

/-- Running the plan touches the table so that the privilege is called for; `width` gives the number
of columns of a table. -/
inductive PhysicalPlan.Accesses (width : RelationId → Nat) (plan : PhysicalPlan) :
    CatalogPrivilege → RelationId → Prop where
  | node {m : PhysicalPlan} {p : CatalogPrivilege} {t : RelationId}
      (below : Below PhysicalPlan.children plan m) (mem : (p, t) ∈ m.touched) :
      plan.Accesses width p t
  | assignment {m : PhysicalPlan} {t : RelationId}
      (below : Below PhysicalPlan.children plan m) (reads : m.AssignsFrom width t) :
      plan.Accesses width .select t
  | subquery {m : PhysicalPlan} {e : TypedExpr} {t : RelationId}
      (below : Below PhysicalPlan.children plan m) (mem : e ∈ m.exprs)
      (reads : (CatalogTableIdWork.expr e).Reads t) : plan.Accesses width .select t

end AionDb
