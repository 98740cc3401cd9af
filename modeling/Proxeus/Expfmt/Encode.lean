import Proxeus.Lib.Text
import Proxeus.Model.Sample

/-!
# Expfmt.Encode

`encode.go`: the text exposition format, written family by family (`MetricFamilyToText`) or sample
by sample (`Encoder`). Nothing is ever read back from the writer, so a text is the list of what has
been written.
-/

namespace Proxeus

/-- `labels.Labels.Get`, where labels may be empty. -/
def LabelSet.get (ls : LabelSet) (name : String) : String := (ls.lookup name).getD ""

namespace Expfmt

open Lib

abbrev Text := List Char

/-- `model.EscapingScheme` -/
inductive EscapingScheme where
  | noEscaping
  | underscoreEscaping
  | dotsEscaping
  | valueEncodingEscaping
deriving DecidableEq, Repr

/-- The functions of the libraries that the encoders call: those of `prometheus/common/model` on
names, and the formatting of a float. -/
class Exposition where
  isValidLegacyMetricName : String → Bool
  escapeName : String → EscapingScheme → String
  /-- What `EscapeMetricFamily` makes of the name of a family or of a label. -/
  escapeFamilyName : String → EscapingScheme → String
  /-- `strconv.AppendFloat` with the format `g` -/
  appendFloat : SampleValue → Text
  legacy_chars : ∀ name, isValidLegacyMetricName name = true →
    ∀ c ∈ name.toList, (c.isAlphanum || c = '_' || c = ':') = true
  legacy_ne_empty : isValidLegacyMetricName "" = false
  escapeName_ne_empty : ∀ name scheme, name ≠ "" → escapeName name scheme ≠ ""
  escapeFamilyName_legacy : ∀ name scheme, isValidLegacyMetricName name = true →
    escapeFamilyName name scheme = name
  escapeFamilyName_other : ∀ name scheme, isValidLegacyMetricName name = false →
    escapeFamilyName name scheme = escapeName name scheme
  appendFloat_line : ∀ v, '\n' ∉ appendFloat v

open Exposition

variable [Exposition]

/-! ## Names and values -/

/-- What the replacers `escaper` and `quotedEscaper` write for a character. -/
def replace (quote : Bool) (c : Char) : Text :=
  if c = '\\' then ['\\', '\\']
  else if c = '\n' then ['\\', 'n']
  else if quote && c = '"' then ['\\', '"']
  else [c]

def writeEscaped (s : String) (quote : Bool) : Text :=
  if s.toList.all fun c => !(c = '\\' || c = '\n' || (quote && c = '"')) then s.toList
  else s.toList.flatMap (replace quote)

def writeName (name : String) : Text :=
  if isValidLegacyMetricName name then name.toList
  else '"' :: writeEscaped name true ++ ['"']

def writeFloat (f : SampleValue) : Text :=
  if f = ⟨0x3ff0000000000000#64⟩ then ['1']
  else if f.rank = 0 then ['0']
  else if f = ⟨0xbff0000000000000#64⟩ then ['-', '1']
  else if f.isNaN then "NaN".toList
  else if f = ⟨0x7ff0000000000000#64⟩ then "+Inf".toList
  else if f = ⟨0xfff0000000000000#64⟩ then "-Inf".toList
  else appendFloat f

def writeInt (i : Int) : Text := (toString i).toList

def typeToken : Text := "# TYPE ".toList

def untypedToken : Text := " untyped\n".toList

/-! ## The part before the value -/

structure MetricLine where
  w : Text
  separator : Char
  braces : Bool

def beginMetric (w : Text) (name : String) : MetricLine :=
  if name = "" then ⟨w, '{', false⟩
  else if isValidLegacyMetricName name then ⟨w ++ writeName name, '{', false⟩
  else ⟨w ++ '{' :: writeName name, ',', true⟩

namespace MetricLine

def label (m : MetricLine) (name value : String) : MetricLine :=
  { w := m.w ++ m.separator :: (writeName name ++ '=' :: '"' :: writeEscaped value true ++ ['"'])
    separator := ','
    braces := m.braces || m.separator = '{' }

/-- `metricLine.end` -/
def endMetric (m : MetricLine) : Text := if m.braces then m.w ++ ['}'] else m.w

end MetricLine

/-! ## Metric families -/

/-- `dto.Metric` -/
structure Metric where
  label : List Label
  untyped : SampleValue
  timestampMs : Option Int

/-- `dto.MetricFamily`, of the untyped kind -/
structure MetricFamily where
  name : String
  help : Option String
  metric : List Metric

def writeMetric (w : Text) (name : String) (m : Metric) : Text :=
  let ml := m.label.foldl (fun ml lp => ml.label lp.name lp.value) (beginMetric w name)
  let w := ml.endMetric ++ ' ' :: writeFloat m.untyped
  let w := match m.timestampMs with
    | some t => w ++ ' ' :: writeInt t
    | none => w
  w ++ ['\n']

def metricFamilyToText (out : Text) (mf : MetricFamily) : Text :=
  let w := match mf.help with
    | some help => out ++ "# HELP ".toList ++ writeName mf.name ++ ' ' :: writeEscaped help false ++
        ['\n']
    | none => out
  let w := w ++ typeToken ++ writeName mf.name ++ untypedToken
  mf.metric.foldl (fun w m => writeMetric w mf.name m) w

/-! ## The streaming encoder -/

structure Encoder where
  w : Text
  scheme : EscapingScheme
  lastName : String
  started : Bool

namespace Encoder

/-- `NewEncoder` -/
def new (w : Text) (scheme : EscapingScheme) : Encoder := ⟨w, scheme, "", false⟩

/-- What either loop of `WriteFloatSample` writes for a label. -/
def writeLabel (scheme : EscapingScheme) (m : MetricLine) (l : Label) : MetricLine :=
  { w := m.w ++ m.separator ::
      (writeName (escapeName l.name scheme) ++ '=' :: '"' :: writeEscaped l.value true ++ ['"'])
    separator := ','
    braces := true }

/-- The part of `WriteFloatSample` before the sample: the line of a family, if the name changes. -/
def writeType (e : Encoder) (name : String) : Encoder :=
  if !e.started || name ≠ e.lastName then
    { e with
      w := e.w ++ typeToken ++ writeName name ++ untypedToken
      lastName := name
      started := true }
  else e

/-- The part of `WriteFloatSample` with the name and the labels. -/
def writeLabels (w : Text) (scheme : EscapingScheme) (name : String) (lbls : LabelSet)
    (external : List Label) : Text :=
  let m : MetricLine :=
    if !isValidLegacyMetricName name then ⟨w ++ ['{'], ',', true⟩ else ⟨w, '{', false⟩
  let m := { m with w := m.w ++ writeName name }
  let m := lbls.pairs.foldl
    (fun m l => if l.name = metricNameLabel || l.value = "" then m else writeLabel scheme m l) m
  let m := external.foldl
    (fun m el => if lbls.get el.name ≠ "" then m else writeLabel scheme m el) m
  if m.braces then m.w ++ ['}'] else m.w

def writeFloatSample (e : Encoder) (name : String) (lbls : LabelSet) (external : List Label)
    (v : SampleValue) (t : Int) : Encoder :=
  let name := escapeName name e.scheme
  let e := e.writeType name
  let w := writeLabels e.w e.scheme name lbls external
  { e with w := w ++ ' ' :: writeFloat v ++ ' ' :: writeInt t ++ ['\n'] }

end Encoder

end Expfmt
end Proxeus
