import PromqlGuide.Catalog.Types

/-!
The built-in learning scenarios. Their queries use the metrics of a public demonstration server.
-/
namespace PromqlGuide.Catalog

/-- Getting Started. -/
def gettingStartedScenario : Scenario where
  id := "getting-started"
  title := "Getting Started"
  description :=
    "Learn the basics of PromQL by exploring real metrics from the Prometheus demo server."
  objectives :=
    ["Understand what metrics and labels are",
      "Write your first PromQL query",
      "Filter metrics using label selectors",
      "View raw metric data vs computed rates"]
  samples :=
    [⟨"up",
        "Target health status",
        some
          ("The \"up\" metric shows whether Prometheus can scrape a target. 1 means up, 0 " ++
            "means down.")⟩,
      ⟨"demo_api_http_requests_in_progress",
        "Current in-progress requests",
        some
          ("This gauge shows the number of HTTP requests currently being processed. " ++
            "Unlike counters, gauges can go up and down.")⟩,
      ⟨"demo_api_http_requests_in_progress\x7bjob=\"demo\"\x7d",
        "Filter by job label",
        some "Label selectors in curly braces filter which time series are returned."⟩,
      ⟨"demo_cpu_usage_seconds_total",
        "CPU usage counter",
        some
          ("This counter tracks total CPU seconds used. Counters only increase, so you " ++
            "need rate() to see per-second values.")⟩,
      ⟨"rate(demo_cpu_usage_seconds_total[5m])",
        "CPU usage rate",
        some
          ("rate() calculates the per-second average rate of increase over a window. [5m] " ++
            "means \"look at the last 5 minutes\".")⟩]

/-- Error Rate Tracking. -/
def errorTrackingScenario : Scenario where
  id := "error-tracking"
  title := "Error Rate Tracking"
  description :=
    "Learn to monitor and analyze error rates, a critical skill for maintaining service " ++
      "reliability."
  objectives :=
    ["Calculate error rates from request metrics",
      "Filter by HTTP status codes using regex",
      "Build error ratio queries for SLIs",
      "Group errors by different dimensions",
      "Detect error spikes and anomalies"]
  samples :=
    [⟨"rate(demo_api_request_duration_seconds_count\x7bstatus=~\"5..\"\x7d[5m])",
        "Server errors (5xx) per second",
        some
          ("Filters for HTTP 5xx status codes using regex (=~). \"5..\" matches 500, 501, 502.")⟩,
      ⟨"sum(rate(demo_api_request_duration_seconds_count\x7bstatus=~\"5..\"\x7d[5m]))",
        "Total 5xx errors/sec",
        some "Sums all 5xx errors across all endpoints and instances."⟩,
      ⟨"rate(demo_api_request_duration_seconds_count\x7bstatus=~\"4..\"\x7d[5m])",
        "Client errors (4xx) per second",
        some "4xx errors indicate client issues such as bad requests or missing resources."⟩,
      ⟨"sum by (status) " ++
          "(rate(demo_api_request_duration_seconds_count\x7bstatus=~\"[45]..\"\x7d[5m]))",
        "Error rate by status code",
        some "Groups both 4xx and 5xx errors by exact status code."⟩,
      ⟨"sum(rate(demo_api_request_duration_seconds_count\x7bstatus=~\"5..\"\x7d[5m])) / " ++
          "sum(rate(demo_api_request_duration_seconds_count[5m])) * 100",
        "Error percentage (SLI)",
        some "Calculates errors as a percentage of total requests, a standard SLI."⟩,
      ⟨"sum by (path) " ++
          "(rate(demo_api_request_duration_seconds_count\x7bstatus=~\"5..\"\x7d[5m]))",
        "Errors by endpoint/path",
        some "Groups errors by the path label to identify which endpoints are failing."⟩,
      ⟨"sum by (instance) " ++
          "(rate(demo_api_request_duration_seconds_count\x7bstatus=~\"5..\"\x7d[5m]))",
        "Errors by instance/server",
        some "Groups errors by instance to find problematic servers."⟩,
      ⟨"topk(5, sum by (path) " ++
          "(rate(demo_api_request_duration_seconds_count\x7bstatus=~\"5..\"\x7d[5m])))",
        "Top 5 error-prone endpoints",
        some "Combines sum by path with topk to list the 5 endpoints with the most errors."⟩]

/-- HTTP Request Analysis. -/
def httpMetricsScenario : Scenario where
  id := "http-metrics"
  title := "HTTP Request Analysis"
  description :=
    "Analyze HTTP request patterns using the demo API metrics."
  objectives :=
    ["Understand gauge vs counter metrics",
      "Calculate rates from counter metrics",
      "Group results by different dimensions",
      "Use aggregation functions"]
  samples :=
    [⟨"demo_api_http_requests_in_progress",
        "Current in-flight requests",
        some "Shows how many HTTP requests are currently being processed."⟩,
      ⟨"sum by (instance) (demo_api_http_requests_in_progress)",
        "In-flight requests by instance",
        some "Groups the in-progress request count by instance label."⟩,
      ⟨"rate(demo_api_request_duration_seconds_count[5m])",
        "Request rate (req/s)",
        some
          ("The _count series of a histogram tracks total observations. Its rate is " ++
            "requests per second.")⟩,
      ⟨"sum(rate(demo_api_request_duration_seconds_count[5m]))",
        "Total request throughput",
        some "Sums all request rates to give total throughput."⟩,
      ⟨"sum by (method) (rate(demo_api_request_duration_seconds_count[5m]))",
        "Request rate by HTTP method",
        some "Groups by method to see traffic broken down by operation type."⟩,
      ⟨"topk(5, sum by (instance) (rate(demo_api_request_duration_seconds_count[5m])))",
        "Top 5 instances by traffic",
        some "topk() returns only the k highest values."⟩]

/-- Latency Analysis. -/
def latencyScenario : Scenario where
  id := "latency"
  title := "Latency Analysis"
  description :=
    "Master histogram metrics to understand request latency distributions and percentiles."
  objectives :=
    ["Understand histogram bucket metrics",
      "Calculate percentile latencies with histogram_quantile",
      "Compare latency across dimensions",
      "Analyze latency distributions"]
  samples :=
    [⟨"histogram_quantile(0.95, rate(demo_api_request_duration_seconds_bucket[5m]))",
        "95th percentile latency",
        some "95% of requests complete faster than this value."⟩,
      ⟨"histogram_quantile(0.50, rate(demo_api_request_duration_seconds_bucket[5m]))",
        "Median latency (p50)",
        some "Half of requests are faster, half are slower."⟩,
      ⟨"histogram_quantile(0.99, rate(demo_api_request_duration_seconds_bucket[5m]))",
        "99th percentile latency",
        some "p99 shows the \"worst case\" for most users."⟩,
      ⟨"histogram_quantile(0.95, sum by (le) " ++
          "(rate(demo_api_request_duration_seconds_bucket[5m])))",
        "Overall p95 latency",
        some "Summing all buckets while keeping the \"le\" label gives the overall latency."⟩,
      ⟨"histogram_quantile(0.95, sum by (path, le) " ++
          "(rate(demo_api_request_duration_seconds_bucket[5m])))",
        "p95 latency by endpoint",
        some "Groups by path to compare latency across endpoints."⟩,
      ⟨"rate(demo_api_request_duration_seconds_sum[5m]) / " ++
          "rate(demo_api_request_duration_seconds_count[5m])",
        "Average request duration",
        some "Dividing the sum of durations by the count gives the average."⟩]

/-- Resource Usage. -/
def resourceUsageScenario : Scenario where
  id := "resource-usage"
  title := "Resource Usage"
  description :=
    "Monitor CPU, memory, and disk usage using demo metrics."
  objectives :=
    ["Monitor resource consumption",
      "Calculate utilization percentages",
      "Track resource trends over time",
      "Compare usage across instances"]
  samples :=
    [⟨"demo_memory_usage_bytes",
        "Current memory usage",
        some "Shows the current memory usage in bytes."⟩,
      ⟨"demo_memory_usage_bytes / 1024 / 1024",
        "Memory usage in MB",
        some "Dividing bytes by 1024 twice converts to megabytes."⟩,
      ⟨"demo_disk_usage_bytes / demo_disk_total_bytes * 100",
        "Disk usage percentage",
        some "Divides used by total and multiplies by 100."⟩,
      ⟨"rate(demo_cpu_usage_seconds_total[5m])",
        "CPU cores in use",
        some "A value of 1.0 means one full CPU core is busy."⟩,
      ⟨"rate(demo_cpu_usage_seconds_total[5m]) / demo_num_cpus * 100",
        "CPU utilization percentage",
        some "Dividing CPU usage by the number of CPUs gives utilization."⟩]

/-- Aggregation Deep Dive. -/
def aggregationsScenario : Scenario where
  id := "aggregations"
  title := "Aggregation Deep Dive"
  description :=
    "Master PromQL aggregation operators and understand when to use each one."
  objectives :=
    ["Use sum, avg, max, min, count effectively",
      "Understand \"by\" vs \"without\" grouping",
      "Combine aggregations with rate functions",
      "Build meaningful aggregated metrics"]
  samples :=
    [⟨"sum(demo_memory_usage_bytes)",
        "Total memory usage",
        some "sum() adds up all values."⟩,
      ⟨"sum by (instance) (demo_memory_usage_bytes)",
        "Memory per instance",
        some "\"by (instance)\" keeps only the instance label in results."⟩,
      ⟨"avg(demo_memory_usage_bytes)",
        "Average memory usage",
        some "avg() calculates the mean across all series."⟩,
      ⟨"max(demo_memory_usage_bytes)",
        "Peak memory usage",
        some "max() returns the highest value."⟩,
      ⟨"count(demo_api_http_requests_in_progress)",
        "Count of time series",
        some "count() returns the number of time series, not the sum of values."⟩,
      ⟨"sum without (instance) (demo_memory_usage_bytes)",
        "Sum without instance",
        some "\"without (instance)\" removes the instance label while keeping all others."⟩]

/-- Top/Bottom Analysis. -/
def topkAnalysisScenario : Scenario where
  id := "topk-analysis"
  title := "Top/Bottom Analysis"
  description :=
    "Use topk and bottomk to focus on the most important time series."
  objectives :=
    ["Find highest and lowest values",
      "Combine with aggregations for rankings",
      "Identify outliers",
      "Build \"top offenders\" queries"]
  samples :=
    [⟨"topk(3, demo_memory_usage_bytes)",
        "Top 3 by memory",
        some "topk(3, ...) returns only the 3 highest values."⟩,
      ⟨"bottomk(3, demo_memory_usage_bytes)",
        "Bottom 3 by memory",
        some "bottomk() returns the lowest values."⟩,
      ⟨"topk(5, rate(demo_cpu_usage_seconds_total[5m]))",
        "Top 5 CPU consumers",
        some "Combines topk with rate to find the highest CPU usage."⟩,
      ⟨"topk(3, histogram_quantile(0.95, sum by (instance, le) " ++
          "(rate(demo_api_request_duration_seconds_bucket[5m]))))",
        "Top 3 slowest instances",
        some "Finds the instances with the highest p95 latency."⟩,
      ⟨"topk(5, sum by (job) (demo_memory_usage_bytes))",
        "Top 5 jobs by memory",
        some "First aggregates by job, then takes the top 5."⟩]

/-- Time Comparisons. -/
def timeComparisonsScenario : Scenario where
  id := "time-comparisons"
  title := "Time Comparisons"
  description :=
    "Compare metrics across time using the offset modifier to detect changes."
  objectives :=
    ["Use offset to look at historical data",
      "Calculate period-over-period changes",
      "Detect traffic pattern changes",
      "Build comparison queries"]
  samples :=
    [⟨"demo_memory_usage_bytes",
        "Current memory usage",
        some "Baseline query showing current memory usage."⟩,
      ⟨"demo_memory_usage_bytes offset 1h",
        "Memory usage 1 hour ago",
        some "The \"offset 1h\" modifier shifts the query window back in time."⟩,
      ⟨"demo_memory_usage_bytes - demo_memory_usage_bytes offset 1h",
        "Memory change in 1 hour",
        some "Subtracting historical from current gives the absolute change."⟩,
      ⟨"rate(demo_cpu_usage_seconds_total[5m]) / rate(demo_cpu_usage_seconds_total[5m] " ++
          "offset 1h)",
        "CPU usage ratio vs 1h ago",
        some "A value of 1.5 means 50% more CPU usage than an hour ago."⟩,
      ⟨"(demo_disk_usage_bytes - demo_disk_usage_bytes offset 24h) / " ++
          "demo_disk_total_bytes * 100",
        "Disk growth in 24h (%)",
        some "Disk growth over the last 24 hours as a percentage of total capacity."⟩]

/-- Rate Windows Explained. -/
def rateWindowsScenario : Scenario where
  id := "rate-windows"
  title := "Rate Windows Explained"
  description :=
    "Understand how different rate() window sizes affect your metrics."
  objectives :=
    ["Understand rate window behavior",
      "Choose appropriate window sizes",
      "Balance sensitivity vs smoothing",
      "Know the 4x scrape interval rule"]
  samples :=
    [⟨"rate(demo_cpu_usage_seconds_total[1m])",
        "1 minute window (sensitive)",
        some "Short windows react to brief changes but are noisier."⟩,
      ⟨"rate(demo_cpu_usage_seconds_total[5m])",
        "5 minute window (balanced)",
        some "Smooths out fluctuations while still responding to real changes."⟩,
      ⟨"rate(demo_cpu_usage_seconds_total[15m])",
        "15 minute window (smooth)",
        some "Longer windows produce smoother graphs for trend analysis."⟩,
      ⟨"irate(demo_cpu_usage_seconds_total[5m])",
        "Instant rate (last 2 points)",
        some "irate() uses only the last two data points."⟩,
      ⟨"increase(demo_items_shipped_total[1h])",
        "Items shipped in 1 hour",
        some "increase() returns the total increase over the window."⟩]

/-- All scenarios, in the order in which they are listed. -/
def scenarios : List Scenario :=
  [gettingStartedScenario,
    errorTrackingScenario,
    httpMetricsScenario,
    latencyScenario,
    resourceUsageScenario,
    aggregationsScenario,
    topkAnalysisScenario,
    timeComparisonsScenario,
    rateWindowsScenario]

end PromqlGuide.Catalog
