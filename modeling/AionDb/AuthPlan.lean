import AionDb.Core
import AionDb.LibWorklist

/-!
# Query plans, as the authorizer sees them

The expressions, the logical plans that stand in subqueries, and the physical
plans of the planner, with the fields that hold a table, an expression or
another plan; output names, data types, access paths and flags are left out,
and so are the Cypher plans, the schema commands and the function scans. The
operators that differ in name only are one constructor with an operator.
-/

namespace AionDb

open Worklist

inductive BinaryOp where
  | eq | ne | ge | gt | le | lt | and | or | add | sub | mul | div | mod | concat
  | arrayConcat | arrayContains | arrayContainedBy | arrayOverlap
  | jsonGet | jsonGetText | jsonPathGet | jsonPathGetText | jsonContains | jsonContainedBy
  | jsonKeyExists | jsonAnyKeyExists | jsonAllKeysExist | nullif | isDistinctFrom

inductive UnaryOp where
  | not | negate | cast | isNull

inductive VariadicOp where
  | scalarFunction | coalesce | arrayConstruct | userFunction

inductive AggOp where
  | count | sum | avg | anyValue | min | max | stringAgg | arrayAgg | boolAnd | boolOr
  | stddevPop | stddevSamp | varPop | varSamp

structure Clauses (E : Type) where
  outputs : List E
  filter : Option E
  orderBy : List E
  limit : Option E
  offset : Option E
  distinctOn : List E

/-- What an aggregating node computes; its aggregates are the outputs of `clauses`. -/
structure Grouping (E : Type) where
  groupBy : List E
  having : Option E
  clauses : Clauses E

mutual

inductive TypedExpr where
  | literal
  | columnRef (ordinal : Nat)
  | outerColumnRef (ordinal : Nat)
  | nextValue
  | binary (op : BinaryOp) (left right : TypedExpr)
  | unary (op : UnaryOp) (expr : TypedExpr)
  | like (expr pattern : TypedExpr)
  | inList (expr : TypedExpr) (list : List TypedExpr)
  | between (expr low high : TypedExpr)
  | caseWhen (conditions results : List TypedExpr) (elseResult : Option TypedExpr)
  | variadic (op : VariadicOp) (args : List TypedExpr)
  | agg (op : AggOp) (args : List TypedExpr) (filter : Option TypedExpr)
  | scalarSubquery (plan : LogicalPlan)
  | arraySubquery (plan : LogicalPlan)
  | inSubquery (expr : TypedExpr) (plan : LogicalPlan)
  | existsSubquery (plan : LogicalPlan)
  | windowFunction (args partitionBy orderBy : List TypedExpr)

inductive LogicalPlan where
  | projectOnce (clauses : Clauses TypedExpr)
  | projectTable (tableId : RelationId) (clauses : Clauses TypedExpr)
  | lockingProjectTable (tableId : RelationId) (clauses : Clauses TypedExpr)
  | projectSource (source : LogicalPlan) (clauses : Clauses TypedExpr)
  | nestedLoopJoin (left right : LogicalPlan) (condition : Option TypedExpr)
      (clauses : Clauses TypedExpr)
  | seqScan (tableId : RelationId)
  | aggregate (tableId : RelationId) (grouping : Grouping TypedExpr)
  | aggregateSource (source : LogicalPlan) (grouping : Grouping TypedExpr)
  | setOperation (left right : LogicalPlan) (orderBy : List TypedExpr)
      (limit offset : Option TypedExpr)
  | projectValues (rows : List (List TypedExpr)) (orderBy : List TypedExpr)
      (limit offset : Option TypedExpr)
  | recursiveCte (base recursive : LogicalPlan)

end

inductive MergeActionPlan where
  | update (assignments : List TypedExpr)
  | delete
  | insert (values : List TypedExpr)
  | insertDefaultValues
  | doNothing

structure MergeWhenClausePlan where
  condition : Option TypedExpr
  action : MergeActionPlan

inductive OnConflictActionPlan where
  | doNothing
  | doUpdate (assignments : List TypedExpr) (whereClause : Option TypedExpr)

inductive PhysicalPlan where
  | projectOnce (clauses : Clauses TypedExpr)
  | projectTable (tableId : RelationId) (clauses : Clauses TypedExpr)
  | lockingProjectTable (tableId : RelationId) (clauses : Clauses TypedExpr)
  | projectSource (source : PhysicalPlan) (clauses : Clauses TypedExpr)
  | truncateTable (tableId : RelationId)
  | createTableAs (source : PhysicalPlan)
  | copyFrom (tableId : RelationId)
  | copyTo (tableId : RelationId)
  | insertValues (tableId : RelationId) (rows : List (List TypedExpr))
      (onConflict : Option OnConflictActionPlan) (returning : List TypedExpr)
  | insertSelect (tableId : RelationId) (assignments : List TypedExpr) (source : PhysicalPlan)
      (onConflict : Option OnConflictActionPlan) (returning : List TypedExpr)
  | deleteFromTable (tableId : RelationId) (filter : Option TypedExpr) (returning : List TypedExpr)
      (usingTableIds : List RelationId)
  | updateTable (tableId : RelationId) (assignments : List TypedExpr) (filter : Option TypedExpr)
      (returning : List TypedExpr) (fromTableIds : List RelationId)
  | nestedLoopJoin (left right : PhysicalPlan) (condition : Option TypedExpr)
      (clauses : Clauses TypedExpr)
  | nestedLoopIndexJoin (left : PhysicalPlan) (rightTableId : RelationId)
      (rightFilter residual : Option TypedExpr) (clauses : Clauses TypedExpr)
  | hashJoin (left right : PhysicalPlan) (condition : Option TypedExpr)
      (clauses : Clauses TypedExpr)
  | mergeJoin (left right : PhysicalPlan) (residual : Option TypedExpr)
      (clauses : Clauses TypedExpr)
  | seqScan (tableId : RelationId)
  | aggregate (tableId : RelationId) (grouping : Grouping TypedExpr)
  | aggregateSource (source : PhysicalPlan) (grouping : Grouping TypedExpr)
  | setOperation (left right : PhysicalPlan) (orderBy : List TypedExpr)
      (limit offset : Option TypedExpr)
  | distributedAppend (fragments : List PhysicalPlan) (orderBy : List TypedExpr)
      (limit offset : Option TypedExpr)
  | gather (child : PhysicalPlan)
  | projectValues (rows : List (List TypedExpr)) (orderBy : List TypedExpr)
      (limit offset : Option TypedExpr)
  | hnswScan (tableId : RelationId)
  | recursiveCte (base recursive : PhysicalPlan)
  | mergeTable (targetTableId sourceTableId : RelationId)
      (sourceSubqueryPlan : Option PhysicalPlan) (onCondition : TypedExpr)
      (whenClauses : List MergeWhenClausePlan)
  | distributedScan (tableId : RelationId) (outputs : List TypedExpr) (filter : Option TypedExpr)
  | partialAggregate (source : PhysicalPlan) (groupBy : List TypedExpr)
  | finalAggregate (partials : List PhysicalPlan) (groupBy : List TypedExpr)
      (having : Option TypedExpr) (orderBy : List TypedExpr) (limit offset : Option TypedExpr)
  | broadcastHashJoin (broadcast localPlan : PhysicalPlan) (leftKeys rightKeys : List TypedExpr)
      (condition : Option TypedExpr) (outputs : List TypedExpr)

variable {E : Type}

def Clauses.exprs (c : Clauses E) : List E :=
  c.outputs ++ c.filter.toList ++ c.orderBy ++ c.limit.toList ++ c.offset.toList ++ c.distinctOn

def Grouping.exprs (g : Grouping E) : List E :=
  g.groupBy ++ g.having.toList ++ g.clauses.exprs

def sortExprs (orderBy : List E) (limit offset : Option E) : List E :=
  orderBy ++ limit.toList ++ offset.toList

/-! ## Subqueries -/

inductive CatalogTableIdWork where
  | expr (e : TypedExpr)
  | logical (plan : LogicalPlan)

namespace CatalogTableIdWork

def ofExprs (es : List TypedExpr) : List CatalogTableIdWork := es.map .expr

/-- What `collect_table_ids_from_work` pushes for a popped item. -/
def pushed : CatalogTableIdWork → List CatalogTableIdWork
  | .expr (.scalarSubquery plan) | .expr (.arraySubquery plan) | .expr (.existsSubquery plan) =>
    [.logical plan]
  | .expr (.inSubquery e plan) => [.expr e, .logical plan]
  | .expr (.binary _ left right) => ofExprs [left, right]
  | .expr (.unary _ e) => ofExprs [e]
  | .expr (.like e pattern) => ofExprs [e, pattern]
  | .expr (.inList e list) => ofExprs (e :: list)
  | .expr (.between e low high) => ofExprs [e, low, high]
  | .expr (.caseWhen conditions results elseResult) =>
    ofExprs (conditions ++ results ++ elseResult.toList)
  | .expr (.variadic _ args) => ofExprs args
  | .expr (.windowFunction args partitionBy orderBy) => ofExprs (args ++ partitionBy ++ orderBy)
  | .expr _ => []
  | .logical (.projectSource source clauses) =>
    .logical source :: ofExprs (clauses.outputs ++ clauses.filter.toList)
  | .logical (.aggregateSource source _) => [.logical source]
  | .logical (.nestedLoopJoin left right _ _) => [.logical left, .logical right]
  | .logical (.setOperation left right _ _ _) => [.logical left, .logical right]
  | .logical (.recursiveCte base recursive) => [.logical base, .logical recursive]
  | .logical _ => []

/-- The parts of an item the walk does not push. -/
def skipped : CatalogTableIdWork → List CatalogTableIdWork
  | .expr (.agg _ args filter) => ofExprs (args ++ filter.toList)
  | .expr _ => []
  | .logical (.projectOnce clauses) => ofExprs clauses.exprs
  | .logical (.projectTable _ clauses) => ofExprs clauses.exprs
  | .logical (.lockingProjectTable _ clauses) => ofExprs clauses.exprs
  | .logical (.projectSource _ c) =>
    ofExprs (c.orderBy ++ c.limit.toList ++ c.offset.toList ++ c.distinctOn)
  | .logical (.nestedLoopJoin _ _ condition clauses) => ofExprs (condition.toList ++ clauses.exprs)
  | .logical (.aggregate _ grouping) => ofExprs grouping.exprs
  | .logical (.aggregateSource _ grouping) => ofExprs grouping.exprs
  | .logical (.setOperation _ _ orderBy limit offset) => ofExprs (sortExprs orderBy limit offset)
  | .logical (.projectValues rows orderBy limit offset) =>
    ofExprs (rows.flatten ++ sortExprs orderBy limit offset)
  | .logical _ => []

def parts (w : CatalogTableIdWork) : List CatalogTableIdWork := w.pushed ++ w.skipped

/-- The table id the walk inserts for a popped item. -/
def inserted : CatalogTableIdWork → Option RelationId
  | .logical (.seqScan tableId) => some tableId
  | .logical (.projectTable tableId _) => some tableId
  | .logical (.aggregate tableId _) => some tableId
  | _ => none

/-- The table whose rows the item scans. -/
def scanned : CatalogTableIdWork → Option RelationId
  | .logical (.lockingProjectTable tableId _) => some tableId
  | w => w.inserted

/-- Evaluating the item reads the table. -/
def Reads (w : CatalogTableIdWork) (t : RelationId) : Prop :=
  ∃ v, Below parts w v ∧ v.scanned = some t

end CatalogTableIdWork

end AionDb
