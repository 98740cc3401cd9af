import Proxeus.Promclient.InstantQuery
import Proxeus.Promclient.Util

/-!
# Promclient.MetricRelabel

`metric_relabel.go`: series are relabelled on their way out of a client, and the matchers and the
grouping labels of a query are rewritten on their way in, through the rules in reverse. The
relabelling itself is the one of Prometheus (`model/relabel`).
-/

namespace Proxeus
namespace Promclient

open Promql

/-- The functions of the libraries that relabelling needs besides the regular expressions. -/
class Strings where
  /-- `strings.ToLower` -/
  toLower : String → String
  /-- `strings.ToUpper` -/
  toUpper : String → String
  /-- `model.IsValidMetricName` -/
  isValidMetricName : String → Bool
  toLower_empty : toLower "" = ""
  toUpper_empty : toUpper "" = ""

/-! ## Relabelling -/

/-- `relabel.Action` -/
inductive Action where
  | replace
  | keep
  | drop
  | keepEqual
  | dropEqual
  | hashMod
  | labelMap
  | labelDrop
  | labelKeep
  | lowercase
  | uppercase
deriving DecidableEq, Repr

def Action.string : Action → String
  | replace => "replace"
  | keep => "keep"
  | drop => "drop"
  | keepEqual => "keepequal"
  | dropEqual => "dropequal"
  | hashMod => "hashmod"
  | labelMap => "labelmap"
  | labelDrop => "labeldrop"
  | labelKeep => "labelkeep"
  | lowercase => "lowercase"
  | uppercase => "uppercase"

/-- `MetricRelabelConfig` -/
structure MetricRelabelConfig where
  sourceLabel : String
  targetLabel : String
  action : Action
deriving DecidableEq, Repr

/-- `relabel.Config` with at most one source label. -/
structure RelabelConfig where
  action : Action
  regex : String
  sourceLabel : String
  targetLabel : String
  replacement : String
deriving DecidableEq, Repr

/-- `allRegex` -/
def allRegex : String := "(.*)"

def MetricRelabelConfig.toRelabelConfig (c : MetricRelabelConfig) : Except String RelabelConfig :=
  match c.action with
  | .replace => .ok ⟨c.action, allRegex, c.sourceLabel, c.targetLabel, "$1"⟩
  | .labelDrop => .ok ⟨c.action, c.sourceLabel, "", "", ""⟩
  | .lowercase => .ok ⟨c.action, "", c.sourceLabel, c.targetLabel, ""⟩
  | .uppercase => .ok ⟨c.action, "", c.sourceLabel, c.targetLabel, ""⟩
  | action => .error ("unsupported action " ++ action.string)

def MetricRelabelConfig.validate [Strings] (c : MetricRelabelConfig) : Except String Unit :=
  if c.sourceLabel ≠ "" && !Strings.isValidMetricName c.sourceLabel then
    .error ("source_label " ++ c.sourceLabel ++ " must be a valid label name")
  else if c.targetLabel ≠ "" && !Strings.isValidMetricName c.targetLabel then
    .error ("target_label " ++ c.targetLabel ++ " must be a valid label name")
  else
    match c.action with
    | .replace | .lowercase | .uppercase =>
      if c.sourceLabel = "" || c.targetLabel = "" then
        .error ("relabel configuration for " ++ c.action.string ++
          " action requires SourceLabel and TargetLabel")
      else .ok ()
    | .labelDrop =>
      if c.sourceLabel = "" then
        .error ("relabel configuration for " ++ c.action.string ++ " action requires SourceLabel")
      else if c.targetLabel ≠ "" then
        .error ("'TargetLabel' can not be set for " ++ c.action.string ++ " action")
      else .ok ()
    | action => .error ("action " ++ action.string ++ " not supported")

section

variable [Regexp] [Strings]

/-- One rule of `relabel.Process`, of the actions that are supported. -/
def relabel (cfg : RelabelConfig) (l : Labels) : Labels :=
  let val := l.get cfg.sourceLabel
  match cfg.action with
  | .replace =>
    match Regexp.expand cfg.regex cfg.replacement val with
    | some res => l.set cfg.targetLabel res
    | none => l
  | .labelDrop => l.restrict fun name => !Regexp.matchString cfg.regex name
  | .lowercase => l.set cfg.targetLabel (Strings.toLower val)
  | .uppercase => l.set cfg.targetLabel (Strings.toUpper val)
  | _ => l

/-- `relabel.Process` -/
def relabelProcess (l : Labels) (cfgs : List RelabelConfig) : Labels :=
  cfgs.foldl (fun l cfg => relabel cfg l) l

def relabelConfigs : List MetricRelabelConfig → Except String (List RelabelConfig)
  | [] => .ok []
  | cfg :: cfgs =>
    match cfg.toRelabelConfig with
    | .error err => .error err
    | .ok relabelCfg =>
      match relabelConfigs cfgs with
      | .error err => .error err
      | .ok relabelCfgs => .ok (relabelCfg :: relabelCfgs)

/-- `NewMetricsRelabelClient`, by the rules it gives the client. -/
def newMetricsRelabelClient (cfgs : List MetricRelabelConfig) :
    Except String (List RelabelConfig) :=
  if cfgs.any fun cfg => "$\x7b".toList <:+: cfg.targetLabel.toList then
    .error "MetricsRelabelClient does not support regex in TargetLabel"
  else relabelConfigs cfgs

/-! ## Rewriting -/

/-- `caseInsensitiveRegexPrefix` -/
def caseInsensitiveRegexPrefix : String := "(?i)"

/-- The matcher for the source of a rule that changes the case. -/
def caseInsensitive (m : Matcher) (name : String) : Matcher where
  type :=
    match m.type with
    | .matchEqual => .matchRegexp
    | .matchNotEqual => .matchNotRegexp
    | type => type
  name := name
  value := caseInsensitiveRegexPrefix ++ m.value
  re := false

/-- The turn of the inner loop of `RewriteMatchers` for one rule, `none` being the return of
`false`. -/
def rewriteMatcher (cfg : MetricRelabelConfig) (m : Matcher) : Option Matcher :=
  match cfg.action with
  | .replace =>
    if m.name = cfg.targetLabel then some ⟨m.type, cfg.sourceLabel, m.value, false⟩ else some m
  | .labelDrop =>
    if m.name = cfg.sourceLabel then
      if m.type = .matchEqual && m.value = "" then some m
      else if m.type = .matchNotRegexp && m.value = ".+" then some m
      else none
    else some m
  | .lowercase | .uppercase =>
    if m.name = cfg.targetLabel then some (caseInsensitive m cfg.sourceLabel) else some m
  | _ => some m

/-- The inner loop, over the rules from the last to the first. -/
def rewriteMatcherLoop : List MetricRelabelConfig → Matcher → Option Matcher
  | [], m => some m
  | cfg :: cfgs, m => (rewriteMatcher cfg m).bind (rewriteMatcherLoop cfgs)

/-- `RewriteMatchers` -/
def rewriteMatchers (cfgs : List MetricRelabelConfig) (matchers : List Matcher) :
    Option (List Matcher) :=
  allAnswers (matchers.map (rewriteMatcherLoop cfgs.reverse))

/-- The turn of the inner loop of `RewriteLabels` for one rule. -/
def rewriteLabel (cfg : MetricRelabelConfig) (label : String) : String :=
  match cfg.action with
  | .replace => if label = cfg.targetLabel then cfg.sourceLabel else label
  | .labelDrop => if label = cfg.sourceLabel then "" else label
  | .lowercase | .uppercase =>
    if cfg.sourceLabel ≠ cfg.targetLabel then
      if label = cfg.targetLabel then cfg.sourceLabel else label
    else label
  | _ => label

def rewriteLabelLoop : List MetricRelabelConfig → String → String
  | [], label => label
  | cfg :: cfgs, label => rewriteLabelLoop cfgs (rewriteLabel cfg label)

/-- `RewriteLabels` -/
def rewriteLabels (cfgs : List MetricRelabelConfig) (labels : List String) : List String :=
  (labels.map (rewriteLabelLoop cfgs.reverse)).filter fun label => label ≠ ""

/-! ## The client -/

section

variable {D : Type}

/-- What a walk of `MetricsRelabelVisitor` ends with. -/
inductive Visited (D : Type) where
  | expr (e : Expr D)
  | badLabel
  | error (msg : String)

/-- Two branches of a walk. An error in one of them is the result. -/
def Visited.both : Visited D → Visited D → (Expr D → Expr D → Expr D) → Visited D
  | .error msg, _, _ => .error msg
  | _, .error msg, _ => .error msg
  | .expr e, .expr e', f => .expr (f e e')
  | _, _, _ => .badLabel

def Visited.map : Visited D → (Expr D → Expr D) → Visited D
  | .expr e, f => .expr (f e)
  | .badLabel, _ => .badLabel
  | .error msg, _ => .error msg

def rewriteSelector (cfgs : List MetricRelabelConfig) (vs : VectorSelector D) :
    Option (VectorSelector D) :=
  (rewriteMatchers cfgs vs.labelMatchers).map fun matchers => { vs with labelMatchers := matchers }

/-- The walk of `MetricsRelabelVisitor`. The selector of a matrix selector is visited twice. -/
def metricsRelabelVisitor (cfgs : List MetricRelabelConfig) : Expr D → Visited D
  | .vectorSelector vs =>
    match rewriteSelector cfgs vs with
    | some vs => .expr (.vectorSelector vs)
    | none => .badLabel
  | .matrixSelector vs range =>
    match (rewriteSelector cfgs vs).bind (rewriteSelector cfgs) with
    | some vs => .expr (.matrixSelector vs range)
    | none => .badLabel
  | .subqueryExpr expr range originalOffset offset step timestamp =>
    (metricsRelabelVisitor cfgs expr).map fun expr =>
      .subqueryExpr expr range originalOffset offset step timestamp
  | .call func args => (metricsRelabelVisitor cfgs args).map (.call func)
  | .aggregateExpr op expr param grouping without =>
    (metricsRelabelVisitor cfgs expr).both (metricsRelabelVisitor cfgs param) fun expr param =>
      .aggregateExpr op expr param (rewriteLabels cfgs grouping) without
  | .binaryExpr op lhs rhs =>
    if exprIsLiteral lhs || exprIsLiteral rhs then
      (metricsRelabelVisitor cfgs lhs).both (metricsRelabelVisitor cfgs rhs) (.binaryExpr op)
    else .error "metricsrelabelvisitor does not support BinaryExprs"
  | .unaryExpr op expr => (metricsRelabelVisitor cfgs expr).map (.unaryExpr op)
  | .numberLiteral val => .expr (.numberLiteral val)
  | .stringLiteral val => .expr (.stringLiteral val)
  | .parenExpr expr => (metricsRelabelVisitor cfgs expr).map .parenExpr
  | .stepInvariantExpr expr => (metricsRelabelVisitor cfgs expr).map .stepInvariantExpr
  | .noExpr => .expr .noExpr
  | .argument head tail =>
    (metricsRelabelVisitor cfgs head).both (metricsRelabelVisitor cfgs tail) .argument

/-- `MetricsRelabelClient.Query` of the client of the rules `cfgs`. -/
def metricsRelabelClient (api : QueryAPI D) (cfgs : List MetricRelabelConfig)
    (relabelCfgs : List RelabelConfig) : QueryAPI D where
  query query ts :=
    query.reparse.bind fun e =>
      match metricsRelabelVisitor cfgs e with
      | .error _ => none
      | .badLabel => some []
      | .expr e =>
        (api.query e ts).map (List.map fun s =>
          { s with metric := relabelProcess s.metric relabelCfgs })

end

end

end Promclient
end Proxeus
