import Proxeus.Promclient.Util
import Proxeus.Proxystorage.Proxy

/-!
# Proxystorage.NodeReplacer

`node_replacer.go`. `parser.Walk` shows every node of a tree to `NodeReplacer`, which may put another
node in its place, and goes on with the children of the node that is there then. A node that is
pushed down is sent to the server groups, and a selector with the response takes its place or its
operand's.

The code changes the tree in place. A visit has what became of the node, `ast`, next to its outcome;
the offsets that `removeOffset` has cleared are kept in the order of the selectors.
-/

namespace Proxeus
namespace Proxystorage

open Promclient Promql

/-! ## The storage -/

/-- `servergroup.ServerGroup`, by its configuration and its metadata cache. -/
structure ServerGroupConfig where
  ordinal : Nat
  remoteRead : Bool
  allowLossy : Bool
  metadataRefresh : Int
  isHistogramMetric : String → Bool

/-- `promclient.API`, by the requests that `NodeReplacer` makes. They are told whether the context is
marked by `WithAggregatePushdown`. -/
structure Client (V : Type) where
  query : Bool → Expr (Response V) → Int → Response V
  queryRange : Bool → Expr (Response V) → Int → Int → Int → Response V

/-- `ProxyStorage` with its state. -/
structure ProxyStorage (V : Type) where
  sgs : List ServerGroupConfig
  crossGroupExact : Bool
  client : Client V
  noStepSubqueryIntervalFn : Int → Int

/-- `parser.EvalStmt`. The interval of an instant query is `0`. -/
structure EvalStmt where
  start : Int
  stop : Int
  interval : Int
deriving DecidableEq, Repr

/-- The errors of a visit. -/
inductive Failure where
  /-- `histogramFidelityError` -/
  | histogramFidelity (missing : List Nat)
  | downstream
  /-- not of the code: the tree is deeper than the walk goes -/
  | depth
deriving DecidableEq, Repr

/-- The fallback reasons of `metrics.go`. -/
inductive Reason where
  | subqueryChild
  | histogram
  | nestedAggregate
  | multiVectorSelector
  | offsetMismatch
  | matrixParent
  | lossyHistogram
  | unsupportedFunc
  | nonReentrantAgg
  | noLiteralOperand
  | unsupportedOperand
  | noInnerPushdown
  | nonLiteralParam
  | exact
  | unsupported
deriving DecidableEq, Repr

section

variable {V : Type}

/-! ## Histograms -/

def histogramOnlyFuncs : List String :=
  ["histogram_avg", "histogram_count", "histogram_sum", "histogram_stddev", "histogram_stdvar"]

def isHistogramOnlyCall : Expr (Response V) → Bool
  | .call func _ => histogramOnlyFuncs.contains func
  | _ => false

/-- `histogramNamePredicate`; without a cache it is always false. -/
def histogramNamePredicate (p : ProxyStorage V) (name : String) : Bool :=
  p.sgs.any (fun sg => 0 < sg.metadataRefresh) && p.sgs.any fun sg => sg.isHistogramMetric name

/-- The walk of a `histogramFinder`, by its `found`. -/
def histogramFinder (isHistogramName : String → Bool) (node : Expr (Response V)) : Bool :=
  node.nodes.any fun
    | .vectorSelector vs => isHistogramName vs.name
    | node => isHistogramOnlyCall node

def strictMissingRemoteRead (p : ProxyStorage V) : List Nat :=
  (p.sgs.filter fun sg => !sg.remoteRead && !sg.allowLossy).map ServerGroupConfig.ordinal

/-! ## What the finders look for -/

def perSeriesFuncs : List String :=
  ["abs", "acos", "acosh", "asin", "asinh", "atan", "atanh", "avg_over_time", "ceil", "changes",
    "clamp", "clamp_max", "clamp_min", "cos", "cosh", "count_over_time", "days_in_month",
    "day_of_month", "day_of_week", "day_of_year", "deg", "delta", "deriv",
    "double_exponential_smoothing", "exp", "floor", "histogram_avg", "histogram_count",
    "histogram_fraction", "histogram_quantile", "histogram_stddev", "histogram_stdvar",
    "histogram_sum", "hour", "idelta", "increase", "irate", "last_over_time", "ln", "log10", "log2",
    "mad_over_time", "max_over_time", "min_over_time", "minute", "month", "predict_linear",
    "present_over_time", "quantile_over_time", "rad", "rate", "resets", "round", "sgn", "sin",
    "sinh", "sort", "sort_desc", "sqrt", "stddev_over_time", "stdvar_over_time", "sum_over_time",
    "tan", "tanh", "timestamp", "ts_of_last_over_time", "ts_of_max_over_time",
    "ts_of_min_over_time", "year"]

def isAgg : Expr (Response V) → Bool
  | .aggregateExpr _ _ _ _ _ => true
  | _ => false

def isSubQuery : Expr (Response V) → Bool
  | .subqueryExpr _ _ _ _ _ _ => true
  | _ => false

def isBinaryExpr : Expr (Response V) → Bool
  | .binaryExpr _ _ _ => true
  | _ => false

def isVectorSelector : Expr (Response V) → Bool
  | .vectorSelector _ => true
  | _ => false

def isMatrixSelector : Expr (Response V) → Bool
  | .matrixSelector _ _ => true
  | _ => false

def hasTimestamp : Expr (Response V) → Bool
  | .vectorSelector vs => vs.timestamp.isSome
  | _ => false

def isCrossSeriesCall : Expr (Response V) → Bool
  | .call func _ =>
    !(perSeriesFuncs.contains func || ["time", "pi", "label_replace", "label_join"].contains func)
  | _ => false

def isAtModifierUnsafeCall [Engine V] : Expr (Response V) → Bool
  | .call func _ => Engine.atModifierUnsafe V func
  | _ => false

/-! ## The guards -/

/-- What `prepare` leaves in a `nodeReplacer`. `atTimestamp` is what the `atTimestampFinder`
found, and `atUnsafe` the `Found` of the `atUnsafeFinder`. -/
structure Prepared where
  offset : Int
  reqOffset : Int
  synthOffset : Int
  keepOffsets : Bool
  atTimestamp : Option Int
  atUnsafe : Nat
deriving DecidableEq, Repr

/-- `prepare`. A node that is not to be replaced has the reason why. -/
def prepare [Engine V] (p : ProxyStorage V) (node : Expr (Response V))
    (path : List (Expr (Response V))) : Except Failure (Reason ⊕ Prepared) :=
  let aggFound := booleanFinder isAgg node
  let atUnsafe := booleanFinder isAtModifierUnsafeCall node
  let offsets := offsetFinder node
  if path.any isSubQuery then .ok (.inl .subqueryChild)
  else if path.any isHistogramOnlyCall || histogramFinder (histogramNamePredicate p) node then
    if strictMissingRemoteRead p ≠ [] then .error (.histogramFidelity (strictMissingRemoteRead p))
    else .ok (.inl .histogram)
  else if p.crossGroupExact && 1 < p.sgs.length then .ok (.inl .exact)
  else if 0 < aggFound && !((isAgg node || isBinaryExpr node) && aggFound = 1) &&
      !isSubQuery node then
    .ok (.inl .nestedAggregate)
  else if 1 < booleanFinder isVectorSelector node && !isSubQuery node then
    .ok (.inl .multiVectorSelector)
  else if !offsets.found || offsets.err then .ok (.inl .offsetMismatch)
  else if 0 < booleanFinder isCrossSeriesCall node && !isSubQuery node then
    .ok (.inl .unsupportedFunc)
  else
    let keepOffsets := 0 < booleanFinder hasTimestamp node || (offsets.offset ≠ 0 && 0 < atUnsafe)
    .ok (.inr
      { offset := offsets.offset
        reqOffset := if keepOffsets then 0 else offsets.offset
        synthOffset := if keepOffsets then 0 else offsets.offset
        keepOffsets
        atTimestamp := timestampFinder node
        atUnsafe })

/-! ## Offsets -/

/-- The offsets of the selectors. -/
def selectorOffsets : Expr (Response V) → List Int
  | .vectorSelector vs => [vs.originalOffset]
  | .matrixSelector vs _ => [vs.originalOffset]
  | .subqueryExpr expr _ _ _ _ _ => selectorOffsets expr
  | .call _ args => selectorOffsets args
  | .aggregateExpr _ expr param _ _ => selectorOffsets expr ++ selectorOffsets param
  | .binaryExpr _ lhs rhs => selectorOffsets lhs ++ selectorOffsets rhs
  | .unaryExpr _ expr => selectorOffsets expr
  | .parenExpr expr => selectorOffsets expr
  | .stepInvariantExpr expr => selectorOffsets expr
  | .argument head tail => selectorOffsets head ++ selectorOffsets tail
  | _ => []

/-- The tree after a walk of an `OffsetRemover`. -/
def offsetRemover : Expr (Response V) → Expr (Response V)
  | .vectorSelector vs => .vectorSelector { vs with originalOffset := 0 }
  | .matrixSelector vs range => .matrixSelector { vs with originalOffset := 0 } range
  | .subqueryExpr expr range originalOffset offset step timestamp =>
    .subqueryExpr (offsetRemover expr) range originalOffset offset step timestamp
  | .call func args => .call func (offsetRemover args)
  | .aggregateExpr op expr param grouping without =>
    .aggregateExpr op (offsetRemover expr) (offsetRemover param) grouping without
  | .binaryExpr op lhs rhs => .binaryExpr op (offsetRemover lhs) (offsetRemover rhs)
  | .unaryExpr op expr => .unaryExpr op (offsetRemover expr)
  | .parenExpr expr => .parenExpr (offsetRemover expr)
  | .stepInvariantExpr expr => .stepInvariantExpr (offsetRemover expr)
  | .argument head tail => .argument (offsetRemover head) (offsetRemover tail)
  | leaf => leaf

/-- `removeOffset`, by what becomes of the node. -/
def removeOffset (r : Prepared) (node : Expr (Response V)) : Expr (Response V) :=
  if r.keepOffsets then node else offsetRemover node

/-- `removeOffset`, by the offsets that it has cleared. -/
def removed (r : Prepared) (node : Expr (Response V)) : List Int :=
  if r.keepOffsets then [] else selectorOffsets node

def restoreSelector (vs : VectorSelector (Response V)) (offsets : List Int) :
    VectorSelector (Response V) :=
  match offsets.head? with
  | some offset => { vs with originalOffset := offset }
  | none => vs

/-- `restoreOffset`, and the offsets that are left over. -/
def restoreOffset : Expr (Response V) → List Int → Expr (Response V) × List Int
  | .vectorSelector vs, offsets => (.vectorSelector (restoreSelector vs offsets), offsets.tail)
  | .matrixSelector vs range, offsets =>
    (.matrixSelector (restoreSelector vs offsets) range, offsets.tail)
  | .subqueryExpr expr range originalOffset offset step timestamp, offsets =>
    let expr := restoreOffset expr offsets
    (.subqueryExpr expr.1 range originalOffset offset step timestamp, expr.2)
  | .call func args, offsets =>
    let args := restoreOffset args offsets
    (.call func args.1, args.2)
  | .aggregateExpr op expr param grouping without, offsets =>
    let expr := restoreOffset expr offsets
    let param := restoreOffset param expr.2
    (.aggregateExpr op expr.1 param.1 grouping without, param.2)
  | .binaryExpr op lhs rhs, offsets =>
    let lhs := restoreOffset lhs offsets
    let rhs := restoreOffset rhs lhs.2
    (.binaryExpr op lhs.1 rhs.1, rhs.2)
  | .unaryExpr op expr, offsets =>
    let expr := restoreOffset expr offsets
    (.unaryExpr op expr.1, expr.2)
  | .parenExpr expr, offsets =>
    let expr := restoreOffset expr offsets
    (.parenExpr expr.1, expr.2)
  | .stepInvariantExpr expr, offsets =>
    let expr := restoreOffset expr offsets
    (.stepInvariantExpr expr.1, expr.2)
  | .argument head tail, offsets =>
    let head := restoreOffset head offsets
    let tail := restoreOffset tail head.2
    (.argument head.1 tail.1, tail.2)
  | leaf, offsets => (leaf, offsets)

/-! ## The arms -/

/-- What becomes of a visit. -/
inductive Outcome (V : Type) where
  | pushed (node : Expr (Response V))
  | fallback (reason : Reason)
  /-- the node has its data already -/
  | revisit

/-- A visit: its outcome, the node that it has changed in place, and the `offsets` it has cleared. -/
structure Visit (V : Type) where
  outcome : Outcome V
  ast : Expr (Response V)
  offsets : List Int

/-- `time.Duration(1)` less than the interval, in nanoseconds. -/
def tightened (interval : Int) : Int := interval * 1000000 - 1

/-- The selector that a response is put into. -/
def responseSelector (s : EvalStmt) (r : Prepared) (result : Response V) :
    VectorSelector (Response V) where
  name := ""
  labelMatchers := []
  originalOffset := r.synthOffset
  timestamp := none
  lookbackDelta := if 0 < s.interval then tightened s.interval else 0
  unexpandedSeriesSet := some result

/-- The request for a query at the times of the statement. -/
def request (p : ProxyStorage V) (s : EvalStmt) (r : Prepared) (aggregatePushdown : Bool)
    (query : Expr (Response V)) : Response V :=
  if 0 < s.interval then
    p.client.queryRange aggregatePushdown query (s.start - r.reqOffset) (s.stop - r.reqOffset)
      s.interval
  else p.client.query aggregatePushdown query (s.start - r.reqOffset)

def queryRangeAt (p : ProxyStorage V) (s : EvalStmt) (r : Prepared) (query : Expr (Response V)) :
    Response V :=
  if r.keepOffsets && r.atTimestamp.isSome && r.atUnsafe = 0 && 0 < s.interval then
    let result := p.client.query false query (r.atTimestamp.getD 0)
    if result.err then result
    else
      vectorToStepMatrix result (s.start - r.reqOffset) (s.stop - r.reqOffset) s.interval
  else
    p.client.queryRange false query (s.start - r.reqOffset) (s.stop - r.reqOffset) s.interval

/-- Whether the node is a selector that has been given its data. -/
def hasData : Expr (Response V) → Bool
  | .vectorSelector vs => vs.unexpandedSeriesSet.isSome
  | _ => false

def replaceAggregate [Regexp] (p : ProxyStorage V) (s : EvalStmt) (r : Prepared) (op : ItemType)
    (expr param : Expr (Response V)) (grouping : List String) (without : Bool) : Visit V :=
  let n : Expr (Response V) := .aggregateExpr op expr param grouping without
  let query := removeOffset r n
  let result := request p s r true query
  let lossy : Visit V := ⟨.fallback .lossyHistogram, query, removed r n⟩
  /- `n.Expr = ret` -/
  let replaced (op : ItemType) : Visit V :=
    let answered : Expr (Response V) := .aggregateExpr op
      (.vectorSelector (responseSelector s r result)) (removeOffset r param) grouping without
    ⟨.pushed answered, answered, removed r n⟩
  let unchanged (outcome : Outcome V) : Visit V := ⟨outcome, n, []⟩
  if hasData expr then unchanged .revisit
  else
    match op with
    | .sum | .min | .max | .topk | .bottomk | .group =>
      if containsLossyHistogram result then lossy else replaced op
    | .avg =>
      if p.sgs.length = 1 then if containsLossyHistogram result then lossy else replaced op
      else if grouping.contains metricNameLabel then
        let replacedGrouping := grouping.map fun g =>
          if g = metricNameLabel then metricNameWorkaroundLabel else g
        let preserved := preserveLabel (cloneExpr expr) metricNameLabel metricNameWorkaroundLabel
        unchanged (.pushed (.aggregateExpr .max
          (preserveLabel
            (.binaryExpr "/" (.aggregateExpr .sum preserved param replacedGrouping without)
              (.aggregateExpr .count preserved param replacedGrouping without))
            metricNameWorkaroundLabel metricNameLabel)
          .noExpr grouping without))
      else
        unchanged (.pushed (.binaryExpr "/"
          (.aggregateExpr .sum (cloneExpr expr) param grouping without)
          (.aggregateExpr .count (cloneExpr expr) param grouping without)))
    | .count => if containsLossyHistogram result then lossy else replaced .sum
    | .countValues =>
      match param.unwrapParens with
      | .stringLiteral valueLabel =>
        if containsLossyHistogram result then lossy
        else
          ⟨.pushed (.aggregateExpr .sum (.vectorSelector (responseSelector s r result)) .noExpr
            (if without then grouping else grouping ++ [valueLabel]) without), query, removed r n⟩
      | _ => unchanged (.fallback .nonLiteralParam)
    | .quantile | .stddev | .stdvar | .limitk | .limitRatio => unchanged (.fallback .nonReentrantAgg)

def replaceCall (p : ProxyStorage V) (s : EvalStmt) (r : Prepared) (func : String)
    (args : Expr (Response V)) : Visit V :=
  let n : Expr (Response V) := .call func args
  let query := removeOffset r n
  let result :=
    if 0 < s.interval then queryRangeAt p s r query
    else p.client.query false query (s.start - r.reqOffset)
  if !perSeriesFuncs.contains func then ⟨.fallback .unsupportedFunc, n, []⟩
  else if containsLossyHistogram result then ⟨.fallback .lossyHistogram, query, removed r n⟩
  else
    let result :=
      if 0 < s.interval then
        fillStaleNaNGaps result (s.start - r.reqOffset) (s.stop - r.reqOffset) s.interval
      else result
    let ret : Expr (Response V) := .vectorSelector (responseSelector s r result)
    -- the functions of sort() and sort_desc() need whole results to calculate
    let sorted := func = "sort" || func = "sort_desc"
    ⟨.pushed (if sorted then .call func (.argument ret .noExpr) else ret), query, removed r n⟩

/-- The selector as its arm, or the one of a binary expression, has left it when the response is
there. -/
def tightenedSelector (s : EvalStmt) (r : Prepared) (vs : VectorSelector (Response V)) :
    VectorSelector (Response V) :=
  { vs with
    originalOffset := if r.keepOffsets then vs.originalOffset else 0
    lookbackDelta := if 0 < s.interval then tightened s.interval else vs.lookbackDelta }

def replaceVectorSelector (p : ProxyStorage V) (s : EvalStmt) (r : Prepared)
    (path : List (Expr (Response V))) (vs : VectorSelector (Response V)) :
    Except Failure (Visit V) :=
  let n : Expr (Response V) := .vectorSelector vs
  let tight := tightenedSelector s r vs
  let result := request p s r false (.vectorSelector tight)
  if vs.unexpandedSeriesSet.isSome then .ok ⟨.revisit, n, []⟩
  else if path.head?.any isMatrixSelector then .ok ⟨.fallback .matrixParent, n, []⟩
  else if result.err then .error .downstream
  else if containsLossyHistogram result then
    .ok ⟨.fallback .lossyHistogram, .vectorSelector { tight with lookbackDelta := vs.lookbackDelta },
      removed r n⟩
  else
    match vs.timestamp with
    | some _ =>
      let ret := { responseSelector s r result with
        name := vs.name
        labelMatchers := vs.labelMatchers }
      .ok ⟨.pushed (.vectorSelector ret), .vectorSelector tight, removed r n⟩
    | none =>
      let answered : Expr (Response V) := .vectorSelector
        { tight with originalOffset := r.offset, unexpandedSeriesSet := some result }
      .ok ⟨.pushed answered, answered, removed r n⟩

/-- `time.Time.Truncate`, which counts from the year 1. -/
def truncate (t d : Int) : Int := if d ≤ 0 then t else t - (t + 62135596800000) % d

/-- The statement of a subquery. -/
def subEvalStmt (p : ProxyStorage V) (s : EvalStmt) (range offset step : Int)
    (timestamp : Option Int) : EvalStmt :=
  let subEnd :=
    match timestamp with
    | some ts => ts - offset
    | none => s.stop - offset
  let interval := if step = 0 then p.noStepSubqueryIntervalFn range else step
  let subStart :=
    match timestamp with
    | some _ => subEnd - range
    | none => s.start - offset - range
  let start := truncate subStart interval
  { start := if start < subStart then start + interval else start
    stop := subEnd
    interval }

/-- `replaceSubquery`. `inspect` is `parser.Inspect` with `NodeReplacer`: the tree, and whether any of
it was pushed down. -/
def replaceSubquery (p : ProxyStorage V)
    (inspect : EvalStmt → Expr (Response V) → Except Failure (Expr (Response V) × Bool))
    (s : EvalStmt) (expr : Expr (Response V)) (range originalOffset offset step : Int)
    (timestamp : Option Int) : Except Failure (Visit V) :=
  (inspect (subEvalStmt p s range offset step timestamp) expr).map fun newN =>
    let n : Expr (Response V) := .subqueryExpr newN.1 range originalOffset offset step timestamp
    if newN.2 then ⟨.pushed n, n, []⟩ else ⟨.fallback .noInnerPushdown, n, []⟩

/-- `vectorBinaryExpr`, the selector `vs` being an operand of the node. -/
def vectorBinaryExpr (p : ProxyStorage V) (s : EvalStmt) (r : Prepared)
    (node : VectorSelector (Response V) → Expr (Response V)) (vs : VectorSelector (Response V)) :
    Except Failure (Visit V) :=
  let tight := tightenedSelector s r vs
  let result := request p s r false (node tight)
  if result.err then .error .downstream
  else if containsLossyHistogram result then
    .ok ⟨.fallback .lossyHistogram, node { tight with lookbackDelta := vs.lookbackDelta },
      removed r (node vs)⟩
  else
    .ok ⟨.pushed (.vectorSelector (responseSelector s r result)), node tight, removed r (node vs)⟩

def replaceBinary (p : ProxyStorage V) (s : EvalStmt) (r : Prepared) (op : String)
    (lhs rhs : Expr (Response V)) : Except Failure (Visit V) :=
  let n : Expr (Response V) := .binaryExpr op lhs rhs
  if exprIsLiteral (unwrapExpr lhs) then
    match rhs with
    | .vectorSelector vs => vectorBinaryExpr p s r (fun vs => .binaryExpr op lhs (.vectorSelector vs)) vs
    | _ => .ok ⟨.fallback .unsupportedOperand, n, []⟩
  else if exprIsLiteral (unwrapExpr rhs) then
    match lhs with
    | .vectorSelector vs => vectorBinaryExpr p s r (fun vs => .binaryExpr op (.vectorSelector vs) rhs) vs
    | _ => .ok ⟨.fallback .unsupportedOperand, n, []⟩
  else .ok ⟨.fallback .noLiteralOperand, n, []⟩

def replaceNode [Regexp] (p : ProxyStorage V)
    (inspect : EvalStmt → Expr (Response V) → Except Failure (Expr (Response V) × Bool))
    (s : EvalStmt) (r : Prepared) (path : List (Expr (Response V))) :
    Expr (Response V) → Except Failure (Visit V)
  | .aggregateExpr op expr param grouping without =>
    .ok (replaceAggregate p s r op expr param grouping without)
  | .call func args => .ok (replaceCall p s r func args)
  | .vectorSelector vs => replaceVectorSelector p s r path vs
  | .subqueryExpr expr range originalOffset offset step timestamp =>
    replaceSubquery p inspect s expr range originalOffset offset step timestamp
  | .binaryExpr op lhs rhs => replaceBinary p s r op lhs rhs
  | node => .ok ⟨.fallback .unsupported, node, []⟩

/-- `replace`: the offsets are restored unless there is a replacement. -/
def replace [Regexp] (p : ProxyStorage V)
    (inspect : EvalStmt → Expr (Response V) → Except Failure (Expr (Response V) × Bool))
    (s : EvalStmt) (r : Prepared) (path : List (Expr (Response V))) (node : Expr (Response V)) :
    Except Failure (Visit V) :=
  (replaceNode p inspect s r path node).map fun visit =>
    match visit.outcome with
    | .pushed _ => visit
    | _ => { visit with ast := (restoreOffset visit.ast visit.offsets).1 }

def nodeReplacer [Regexp] [Engine V] (p : ProxyStorage V)
    (inspect : EvalStmt → Expr (Response V) → Except Failure (Expr (Response V) × Bool))
    (s : EvalStmt) (path : List (Expr (Response V))) (node : Expr (Response V)) :
    Except Failure (Visit V) :=
  (prepare p node path).bind fun
    | .inl reason => .ok ⟨.fallback reason, node, []⟩
    | .inr r => replace p inspect s r path node

/-! ## The walk -/

/-- Walking two children of a node. -/
def walkBoth (node : Expr (Response V) → Expr (Response V) → Expr (Response V))
    (fst snd : Except Failure (Expr (Response V) × Bool)) :
    Except Failure (Expr (Response V) × Bool) :=
  fst.bind fun fst => snd.map fun snd => (node fst.1 snd.1, fst.2 || snd.2)

/-- `parser.Walk` on the children of a node, by what it does on each. -/
def walkChildren (walk : Expr (Response V) → Except Failure (Expr (Response V) × Bool)) :
    Expr (Response V) → Except Failure (Expr (Response V) × Bool)
  | .matrixSelector vs range =>
    (walk (.vectorSelector vs)).map fun
      | (.vectorSelector vs, pushed) => (.matrixSelector vs range, pushed)
      | (_, pushed) => (.matrixSelector vs range, pushed)
  | .subqueryExpr expr range originalOffset offset step timestamp =>
    (walk expr).map fun expr =>
      (.subqueryExpr expr.1 range originalOffset offset step timestamp, expr.2)
  | .call func args => (walk args).map fun args => (.call func args.1, args.2)
  | .aggregateExpr op expr param grouping without =>
    walkBoth (fun expr param => .aggregateExpr op expr param grouping without) (walk expr)
      (walk param)
  | .binaryExpr op lhs rhs => walkBoth (.binaryExpr op) (walk lhs) (walk rhs)
  | .unaryExpr op expr => (walk expr).map fun expr => (.unaryExpr op expr.1, expr.2)
  | .parenExpr expr => (walk expr).map fun expr => (.parenExpr expr.1, expr.2)
  | .stepInvariantExpr expr => (walk expr).map fun expr => (.stepInvariantExpr expr.1, expr.2)
  | .argument head tail => walkBoth .argument (walk head) (walk tail)
  | leaf => .ok (leaf, false)

/-- `parser.Walk` with `NodeReplacer`, to the depth `fuel`: the tree, and whether any of it was pushed
down. -/
def walk [Regexp] [Engine V] (p : ProxyStorage V) : Nat → EvalStmt → List (Expr (Response V)) →
    Expr (Response V) → Except Failure (Expr (Response V) × Bool)
  | 0, _, _, _ => .error .depth
  | fuel + 1, s, path, .argument head tail =>
    walkChildren (walk p fuel s path) (.argument head tail)
  | _ + 1, _, _, .noExpr => .ok (.noExpr, false)
  | fuel + 1, s, path, node =>
    (nodeReplacer p (fun s expr => walk p fuel s [] expr) s path node).bind fun visit =>
      match visit.outcome with
      | .pushed node =>
        (walkChildren (walk p fuel s (node :: path)) node).map fun node => (node.1, true)
      | _ => walkChildren (walk p fuel s (visit.ast :: path)) visit.ast

end

end Proxystorage
end Proxeus
