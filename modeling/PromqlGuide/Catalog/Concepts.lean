import PromqlGuide.Catalog.Types

/-!
The core concepts: types of metric, labels, and rates.
-/
namespace PromqlGuide.Catalog

/-- Counter. -/
def counterConcept : Concept where
  id := "counter"
  title := "Counter"
  description :=
    "Cumulative metric that only increases or resets to zero"
  meaning :=
    "Counters are cumulative metrics that represent a single monotonically increasing " ++
      "value. They can only go up (or reset to zero on restart). Common examples include " ++
      "total HTTP requests, errors, or bytes transferred."
  usage :=
    "Use counters for values that only increase: request counts, error totals, bytes " ++
      "sent. Always use rate() or increase() to make counter data meaningful - raw counter " ++
      "values just show \"total since start\"."
  illustration :=
    "http_requests_total counts every HTTP request since the server started. If you see " ++
      "a value of 1,234,567, that means ~1.2 million requests have been processed."
  query := "rate(http_requests_total[5m])"
  tips :=
    ["Never alert on raw counter values - they always grow",
      "Always use rate() or increase() with counters",
      "The [5m] window should be at least 4x your scrape interval",
      "Counter resets (from restarts) are handled automatically by rate()"]

/-- Gauge. -/
def gaugeConcept : Concept where
  id := "gauge"
  title := "Gauge"
  description :=
    "Metric that can go up or down, like temperature or memory"
  meaning :=
    "Gauges represent a single numerical value that can arbitrarily go up and down. They " ++
      "measure current state: memory usage, active connections, queue depth, temperature."
  usage :=
    "Use gauges for \"current value\" metrics that fluctuate. Unlike counters, you can " ++
      "query gauges directly without rate(). You can also use avg_over_time(), " ++
      "max_over_time(), etc."
  illustration :=
    "process_resident_memory_bytes shows current memory usage. The value might be " ++
      "524288000 (500MB) and can increase or decrease as the application runs."
  query := "process_resident_memory_bytes"
  tips :=
    ["Gauges can be queried directly without rate()",
      "Use max_over_time() for peak values",
      "Use avg_over_time() for average over a period",
      "Good for current state: connections, queue size, memory"]

/-- Histogram. -/
def histogramConcept : Concept where
  id := "histogram"
  title := "Histogram"
  description :=
    "Samples observations into configurable buckets for distributions"
  meaning :=
    "Histograms track distributions by counting observations into predefined buckets. " ++
      "They create three metric types: _bucket (cumulative counts per bucket), _sum (total " ++
      "sum of observed values), and _count (total number of observations)."
  usage :=
    "Use histograms for latency, request sizes, or any metric where you need " ++
      "percentiles. histogram_quantile() calculates percentiles from bucket data. The " ++
      "\"le\" (less than or equal) label defines bucket boundaries."
  illustration :=
    "http_request_duration_seconds_bucket\x7ble=\"0.1\"\x7d counts requests completing " ++
      "in ≤100ms. The le=\"0.5\" bucket counts requests ≤500ms. Use " ++
      "histogram_quantile(0.95, ...) for p95."
  query := "histogram_quantile(0.95, rate(http_request_duration_seconds_bucket[5m]))"
  tips :=
    ["Keep the \"le\" label when grouping for histogram_quantile()",
      "Bucket boundaries are cumulative (le=\"0.5\" includes le=\"0.1\")",
      "More buckets = better accuracy but more storage",
      "Choose bucket boundaries based on your SLOs"]

/-- Labels. -/
def labelsConcept : Concept where
  id := "labels"
  title := "Labels"
  description :=
    "Key-value pairs that identify and filter time series"
  meaning :=
    "Labels are key-value pairs attached to every time series. They enable filtering " ++
      "(\x7bstatus_code=\"500\"\x7d), grouping (by route), and create unique time series. " ++
      "Each unique label combination is a separate time series."
  usage :=
    "Use labels to add dimensions you need to filter or group by. But be careful: high " ++
      "cardinality (many unique values) can create performance issues. Avoid user IDs or " ++
      "timestamps as labels."
  illustration :=
    "http_requests_total\x7bmethod=\"GET\", route=\"/api/users\", " ++
      "status_code=\"200\"\x7d identifies a specific time series. Change any label value " ++
      "and you get a different series."
  query := "sum by (route) (rate(http_requests_total[5m]))"
  tips :=
    ["Label names should be lowercase with underscores",
      "Avoid high-cardinality labels (user IDs, timestamps)",
      "Use =~ for regex matching, !~ for negative regex",
      "__name__ is a special label containing the metric name"]

/-- rate() vs irate(). -/
def rateVsIrateConcept : Concept where
  id := "rate-vs-irate"
  title := "rate() vs irate()"
  description :=
    "Understanding when to use average rate vs instant rate"
  meaning :=
    "rate() calculates per-second average rate using all points in the range. irate() " ++
      "uses only the last two points for \"instant\" rate. rate() is smoother, irate() is " ++
      "more responsive to spikes."
  usage :=
    "Use rate() for dashboards, trends, and most alerting - it smooths out noise. Use " ++
      "irate() when you need to see brief spikes that rate() would average out, like " ++
      "real-time displays."
  illustration :=
    "If traffic spikes for 10 seconds then returns to normal: rate()[5m] shows a small " ++
      "bump, irate()[5m] shows the full spike (but only briefly)."
  query := "rate(http_requests_total[5m]) # vs irate(http_requests_total[5m])"
  tips :=
    ["rate() for alerting and dashboards",
      "irate() for real-time spike detection",
      "Both handle counter resets automatically",
      "irate() can show misleading spikes from scrape timing"]

/-- All concepts, in the order in which they are listed. -/
def concepts : List Concept :=
  [counterConcept,
    gaugeConcept,
    histogramConcept,
    labelsConcept,
    rateVsIrateConcept]

end PromqlGuide.Catalog
