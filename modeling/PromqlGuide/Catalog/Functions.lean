import PromqlGuide.Catalog.Types

/-!
The reference of functions and aggregation operators.
-/
namespace PromqlGuide.Catalog

/-- The categories of functions. -/
def functionCategories : List String :=
  ["Rate", "Aggregation", "Selection", "Histogram", "Math", "Time", "Label"]

/-- The function `rate`. -/
def rateFunction : FunctionEntry where
  name := "rate"
  category := "Rate"
  signature := "rate(v range-vector)"
  description := "Per-second average rate of increase"
  sample :=
    "rate(http_requests_total[5m])"
  explanation :=
    "Calculates the per-second average rate of increase over the time range. Essential " ++
      "for counters. The [5m] window should be at least 4x your scrape interval."
  tips :=
    ["Most common function for counters",
      "Use for dashboards and alerting",
      "Handles counter resets automatically"]

/-- The function `irate`. -/
def irateFunction : FunctionEntry where
  name := "irate"
  category := "Rate"
  signature := "irate(v range-vector)"
  description := "Instant rate using last two points"
  sample :=
    "irate(http_requests_total[5m])"
  explanation :=
    "Uses only the last two data points to calculate rate. More sensitive to brief " ++
      "spikes than rate(), but also more volatile and noisy."
  tips :=
    ["Good for real-time spike detection",
      "Not recommended for alerting",
      "Can show misleading values"]

/-- The function `increase`. -/
def increaseFunction : FunctionEntry where
  name := "increase"
  category := "Rate"
  signature := "increase(v range-vector)"
  description := "Total increase over time range"
  sample :=
    "increase(http_requests_total[1h])"
  explanation :=
    "Returns the total increase over the time period. Equivalent to rate() * " ++
      "range_duration. Useful when you want counts rather than rates."
  tips :=
    ["Returns count, not rate", "Good for \"requests in last hour\"", "Handles counter resets"]

/-- The function `sum`. -/
def sumFunction : FunctionEntry where
  name := "sum"
  category := "Aggregation"
  signature := "sum([by|without (labels)]) (v instant-vector)"
  description := "Sum values across dimensions"
  sample :=
    "sum by (route) (rate(http_requests_total[5m]))"
  explanation :=
    "Adds up all values. Use \"by\" to keep specific labels, \"without\" to remove " ++
      "specific labels. Without either, all labels are removed."
  tips :=
    ["\"by\" keeps specified labels",
      "\"without\" removes specified labels",
      "No modifier = single total"]

/-- The function `avg`. -/
def avgFunction : FunctionEntry where
  name := "avg"
  category := "Aggregation"
  signature := "avg([by|without (labels)]) (v instant-vector)"
  description := "Average across dimensions"
  sample :=
    "avg by (route) (rate(http_requests_total[5m]))"
  explanation :=
    "Calculates arithmetic mean across matching series. Useful for understanding typical " ++
      "values when you have multiple instances."
  tips :=
    ["Good for \"typical\" values", "Use with by/without like sum", "Sensitive to outliers"]

/-- The function `max`. -/
def maxFunction : FunctionEntry where
  name := "max"
  category := "Aggregation"
  signature := "max([by|without (labels)]) (v instant-vector)"
  description := "Maximum value across dimensions"
  sample :=
    "max by (route) (rate(http_requests_total[5m]))"
  explanation :=
    "Returns the highest value among grouped series. Useful for finding peak load or " ++
      "worst-case latency."
  tips :=
    ["Find peak values", "Good for alerting on any instance", "Pairs well with min()"]

/-- The function `min`. -/
def minFunction : FunctionEntry where
  name := "min"
  category := "Aggregation"
  signature := "min([by|without (labels)]) (v instant-vector)"
  description := "Minimum value across dimensions"
  sample :=
    "min by (route) (rate(http_requests_total[5m]))"
  explanation :=
    "Returns the lowest value among grouped series. Useful for finding minimum " ++
      "throughput or best-case latency."
  tips :=
    ["Find minimum values", "Detect instances with low traffic", "Pairs well with max()"]

/-- The function `count`. -/
def countFunction : FunctionEntry where
  name := "count"
  category := "Aggregation"
  signature := "count([by|without (labels)]) (v instant-vector)"
  description := "Count number of series"
  sample :=
    "count by (route) (http_requests_total)"
  explanation :=
    "Counts the number of time series, not values. Useful for knowing how many series " ++
      "match your query."
  tips :=
    ["Counts series, not values", "Good for cardinality checks", "Different from sum()"]

/-- The function `topk`. -/
def topkFunction : FunctionEntry where
  name := "topk"
  category := "Selection"
  signature := "topk(k, v instant-vector)"
  description := "Top k elements by value"
  sample :=
    "topk(5, sum by (route) (rate(http_requests_total[5m])))"
  explanation :=
    "Returns the k time series with the largest values. Useful for \"top N\" dashboards " ++
      "and focusing on highest impact items."
  tips :=
    ["Shows highest values", "k must be a positive integer", "Returns full time series"]

/-- The function `bottomk`. -/
def bottomkFunction : FunctionEntry where
  name := "bottomk"
  category := "Selection"
  signature := "bottomk(k, v instant-vector)"
  description := "Bottom k elements by value"
  sample :=
    "bottomk(5, sum by (route) (rate(http_requests_total[5m])))"
  explanation :=
    "Returns the k time series with the smallest values. Useful for finding least active " ++
      "items or best performers (for error rates)."
  tips :=
    ["Shows lowest values", "Good for finding underutilized resources", "Opposite of topk"]

/-- The function `histogram_quantile`. -/
def histogramQuantileFunction : FunctionEntry where
  name := "histogram_quantile"
  category := "Histogram"
  signature := "histogram_quantile(φ scalar, b instant-vector)"
  description := "Calculate quantile from histogram"
  sample :=
    "histogram_quantile(0.95, rate(http_request_duration_seconds_bucket[5m]))"
  explanation :=
    "Calculates the φ-quantile (0 ≤ φ ≤ 1) from histogram buckets. φ=0.95 gives the 95th " ++
      "percentile. Must use rate() of _bucket metrics."
  tips :=
    ["φ between 0 and 1",
      "Keep \"le\" label when grouping",
      "Use rate() on buckets first",
      "Common: 0.5 (p50), 0.95 (p95), 0.99 (p99)"]

/-- The function `abs`. -/
def absFunction : FunctionEntry where
  name := "abs"
  category := "Math"
  signature := "abs(v instant-vector)"
  description := "Absolute value"
  sample :=
    "abs(rate(errors[5m]) - rate(errors[5m] offset 1h))"
  explanation :=
    "Returns the absolute value of all sample values. Useful when comparing values where " ++
      "direction doesn't matter."
  tips :=
    ["Converts negative to positive", "Useful for change magnitude", "Works element-wise"]

/-- The function `ceil`. -/
def ceilFunction : FunctionEntry where
  name := "ceil"
  category := "Math"
  signature := "ceil(v instant-vector)"
  description := "Round up to nearest integer"
  sample :=
    "ceil(rate(http_requests_total[5m]))"
  explanation :=
    "Rounds all values up to the nearest integer. Useful for display or when you need " ++
      "whole numbers."
  tips :=
    ["Rounds up", "Returns integer", "Pairs with floor()"]

/-- The function `floor`. -/
def floorFunction : FunctionEntry where
  name := "floor"
  category := "Math"
  signature := "floor(v instant-vector)"
  description := "Round down to nearest integer"
  sample :=
    "floor(rate(http_requests_total[5m]))"
  explanation :=
    "Rounds all values down to the nearest integer. Useful when you need whole numbers " ++
      "and want to be conservative."
  tips :=
    ["Rounds down", "Returns integer", "Pairs with ceil()"]

/-- The function `round`. -/
def roundFunction : FunctionEntry where
  name := "round"
  category := "Math"
  signature := "round(v instant-vector, to_nearest scalar)"
  description := "Round to nearest multiple"
  sample :=
    "round(rate(http_requests_total[5m]), 0.1)"
  explanation :=
    "Rounds values to the nearest multiple of to_nearest. Default is 1 (nearest integer)."
  tips :=
    ["to_nearest is optional (default 1)",
      "round(x, 0.1) = 1 decimal",
      "round(x, 10) = nearest 10"]

/-- The function `time`. -/
def timeFunction : FunctionEntry where
  name := "time"
  category := "Time"
  signature := "time()"
  description := "Current Unix timestamp"
  sample :=
    "time() - process_start_time_seconds"
  explanation :=
    "Returns the current Unix timestamp (seconds since Jan 1, 1970). Useful for " ++
      "calculating age or time since events."
  tips :=
    ["No arguments", "Returns seconds", "Useful for uptime calculations"]

/-- The function `label_replace`. -/
def labelReplaceFunction : FunctionEntry where
  name := "label_replace"
  category := "Label"
  signature := "label_replace(v, dst_label, replacement, src_label, regex)"
  description := "Modify or create labels with regex"
  sample :=
    "label_replace(up, \"short\", \"$1\", \"instance\", \"(.*):.+\")"
  explanation :=
    "Matches regex against src_label and creates/replaces dst_label with replacement " ++
      "(can use capture groups like $1)."
  tips :=
    ["$1, $2 for capture groups", "Creates label if doesn't exist", "Useful for reformatting"]

/-- All functions, in the order in which they are listed. -/
def functions : List FunctionEntry :=
  [rateFunction,
    irateFunction,
    increaseFunction,
    sumFunction,
    avgFunction,
    maxFunction,
    minFunction,
    countFunction,
    topkFunction,
    bottomkFunction,
    histogramQuantileFunction,
    absFunction,
    ceilFunction,
    floorFunction,
    roundFunction,
    timeFunction,
    labelReplaceFunction]

end PromqlGuide.Catalog
