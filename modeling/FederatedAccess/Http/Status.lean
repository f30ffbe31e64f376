import FederatedAccess.Number.Decimal

/-!
# Status codes

The codes by which a server tells that it refuses or fails, with their reason phrases.
-/

namespace FederatedAccess.Status

/-- The reason phrases of the refusals. -/
def refusals : List (Nat × String) :=
  [(400, "Bad Request"), (401, "Unauthorized"), (402, "Payment Required"), (403, "Forbidden"),
    (404, "Not Found"), (405, "Method Not Allowed"), (406, "Not Acceptable"),
    (407, "Proxy Authentication Required"), (408, "Request Timeout"), (409, "Conflict"),
    (410, "Gone"), (411, "Length Required"), (412, "Precondition Failed"),
    (413, "Payload Too Large"), (414, "URI Too Long"), (415, "Unsupported Media Type"),
    (416, "Range Not Satisfiable"), (417, "Expectation Failed"), (418, "I'm a teapot"),
    (421, "Misdirected Request"), (422, "Unprocessable Entity"), (423, "Locked"),
    (424, "Failed Dependency"), (425, "Too Early"), (426, "Upgrade Required"),
    (428, "Precondition Required"), (429, "Too Many Requests"),
    (431, "Request Header Fields Too Large"), (451, "Unavailable For Legal Reasons")]

/-- The reason phrases of the failures. -/
def failures : List (Nat × String) :=
  [(500, "Internal Server Error"), (501, "Not Implemented"), (502, "Bad Gateway"),
    (503, "Service Unavailable"), (504, "Gateway Timeout"), (505, "HTTP Version Not Supported"),
    (506, "Variant Also Negotiates"), (507, "Insufficient Storage"), (508, "Loop Detected"),
    (510, "Not Extended"), (511, "Network Authentication Required")]

/-- The reason phrase of a code. -/
def phrase (code : Nat) : String :=
  ((refusals ++ failures).lookup code).getD "<unknown status code>"

/-- A code with its reason phrase. -/
def render (code : Nat) : String := String.ofList (Decimal.ofNat code) ++ " " ++ phrase code

/-- Who is to blame for a code. -/
def blame (code : Nat) : String :=
  if 400 ≤ code ∧ code < 500 then "HTTP status client error" else "HTTP status server error"

/-- The description of a failure that is known by its code alone. -/
def describe (code : Nat) (address : String) : String :=
  blame code ++ " (" ++ render code ++ ") for url (" ++ address ++ ")"

end FederatedAccess.Status
