import OpenTela.Lib.Overwriting
import OpenTela.Server.Http

namespace OpenTela.Usage

def usageHeaderPrefix : String := "X-Usage-"

/-- `strings.ToLower`. The mapping of the characters outside ASCII is a parameter. -/
def toLower (unicode : Char → Char) (s : String) : String :=
  String.ofList (s.toList.map (fun c => if c.toNat < 128 then c.toLower else unicode c))

/-- `strconv.ParseInt` to base 10 and 64 bits, which reads what `strconv.Atoi` does. -/
def parseInt (s : String) : Option Int64 := (atoi s).map Int64.ofInt

/-- The name of the metric behind the prefix of a header. -/
def metricName (unicode : Char → Char) (key : String) : String :=
  toLower unicode (String.ofList ((key.toList.drop usageHeaderPrefix.toList.length).map (fun c => if c = '-' then '_' else c)))

/-- The metric of one header, unless it is skipped. -/
def usageMetric (unicode : Char → Char) (key : String) (values : List String) : Option (String × Int64) :=
  if usageHeaderPrefix.toList.isPrefixOf key.toList then
    match values with
    | [] => none
    | value :: _ => if value = "" then none else (parseInt value).map (fun n => (metricName unicode key, n))
  else none

/-- An order in which the header map is iterated. -/
abbrev Iteration (header : Store String (List String)) : Type := { keys : List String // keys.Perm header.keys }

/-- The metrics; an error is never returned. -/
def extractUsageMetrics (unicode : Char → Char) (header : Store String (List String)) (order : Iteration header) : Store String Int64 :=
  order.1.foldl (fun metrics key =>
    match (header.lookup key).bind (usageMetric unicode key) with
    | some (name, value) => metrics.insert name value
    | none => metrics) ∅

/-- Headers that give the same metric give it the same value. -/
def Unambiguous (unicode : Char → Char) (header : Store String (List String)) : Prop :=
  ∀ key values key' values' name value value', header.lookup key = some values → header.lookup key' = some values' →
    usageMetric unicode key values = some (name, value) → usageMetric unicode key' values' = some (name, value') → value = value'

section Orders

variable {unicode : Char → Char} {header : Store String (List String)}

/-- What a header of the map writes. -/
def headerWrite (unicode : Char → Char) (header : Store String (List String)) (key : String) : Option (String × Int64) :=
  (header.lookup key).bind (usageMetric unicode key)

theorem extractUsageMetrics_writeAll (order : Iteration header) :
    extractUsageMetrics unicode header order = Store.writeAll ∅ (order.1.filterMap (headerWrite unicode header)) := by
  have loop : ∀ (keys : List String) (metrics : Store String Int64),
      keys.foldl (fun metrics key =>
        match (header.lookup key).bind (usageMetric unicode key) with
        | some (name, value) => metrics.insert name value
        | none => metrics) metrics = Store.writeAll metrics (keys.filterMap (headerWrite unicode header)) := by
    intro keys
    induction keys with
    | nil => exact fun _ => rfl
    | cons key rest ih =>
      intro metrics
      rw [List.foldl_cons, ih, List.filterMap_cons, headerWrite]
      cases (header.lookup key).bind (usageMetric unicode key) <;> rfl
  exact loop order.1 ∅

/-- The header writes the value. -/
theorem headerWrite_eq {key name : String} {value : Int64} : headerWrite unicode header key = some (name, value) ↔
    ∃ values, header.lookup key = some values ∧ usageMetric unicode key values = some (name, value) :=
  Option.bind_eq_some_iff

theorem Unambiguous.agreeing (unambiguous : Unambiguous unicode header) (keys : List String) :
    Store.Agreeing (keys.filterMap (headerWrite unicode header)) := by
  intro name value value' written written'
  obtain ⟨key, _, first⟩ := List.mem_filterMap.mp written
  obtain ⟨key', _, second⟩ := List.mem_filterMap.mp written'
  obtain ⟨values, found, metric⟩ := headerWrite_eq.mp first
  obtain ⟨values', found', metric'⟩ := headerWrite_eq.mp second
  exact unambiguous key values key' values' name value value' found found' metric metric'

/-- The order of the map with one header put last. -/
def lastOrder (header : Store String (List String)) (key : String) (known : key ∈ header) : Iteration header :=
  ⟨header.keys.erase key ++ [key],
    List.perm_append_singleton key (header.keys.erase key) |>.trans (List.perm_cons_erase (AList.mem_keys.mp known)).symm⟩

/-- The last header has its way. -/
theorem lastOrder_lookup {key name : String} {value : Int64} (known : key ∈ header)
    (writes : headerWrite unicode header key = some (name, value)) :
    (extractUsageMetrics unicode header (lastOrder header key known)).lookup name = some value := by
  have own : [key].filterMap (headerWrite unicode header) = [(name, value)] := by
    rw [List.filterMap_cons, writes]
    rfl
  rw [extractUsageMetrics_writeAll, lastOrder, List.filterMap_append, own]
  exact Store.writeAll_last

end Orders

/-- The metrics are the same for every order in which the headers are iterated exactly if headers that give the
same metric give it the same value. -/
theorem extraction_order_iff (unicode : Char → Char) (header : Store String (List String)) :
    (∀ order order' : Iteration header, ∀ name,
      (extractUsageMetrics unicode header order).lookup name = (extractUsageMetrics unicode header order').lookup name) ↔
      Unambiguous unicode header := by
  constructor
  · intro same key values key' values' name value value' found found' metric metric'
    have known : key ∈ header := AList.lookup_isSome.mp (by rw [found]; rfl)
    have known' : key' ∈ header := AList.lookup_isSome.mp (by rw [found']; rfl)
    have last := lastOrder_lookup known (headerWrite_eq.mpr ⟨values, found, metric⟩)
    have last' := lastOrder_lookup known' (headerWrite_eq.mpr ⟨values', found', metric'⟩)
    have equal := same (lastOrder header key known) (lastOrder header key' known') name
    rw [last, last'] at equal
    exact Option.some.inj equal
  · intro unambiguous order order' name
    have reordered : order.1.Perm order'.1 := order.2.trans order'.2.symm
    rw [extractUsageMetrics_writeAll, extractUsageMetrics_writeAll]
    exact Store.writeAll_perm (unambiguous.agreeing order'.1) (reordered.filterMap _) name

/-- One header with a hyphen, one with an underscore, both as `net/http` leaves them. -/
def gpuHeaders : Store String (List String) :=
  AList.insert "X-Usage-Gpu-Ms" ["1"] (AList.insert "X-Usage-Gpu_ms" ["2"] ∅)

theorem extraction_order_gpu : ¬ ∀ order order' : Iteration gpuHeaders, ∀ name,
    (extractUsageMetrics id gpuHeaders order).lookup name = (extractUsageMetrics id gpuHeaders order').lookup name := by
  intro same
  have one : headerWrite id gpuHeaders "X-Usage-Gpu-Ms" = some ("gpu_ms", 1) := by decide +kernel
  have two : headerWrite id gpuHeaders "X-Usage-Gpu_ms" = some ("gpu_ms", 2) := by decide +kernel
  have first := lastOrder_lookup (by decide) one
  have second := lastOrder_lookup (by decide) two
  rw [same _ (lastOrder gpuHeaders "X-Usage-Gpu_ms" (by decide)), second] at first
  exact absurd first (by decide)

end OpenTela.Usage
