import PageMarkup.Document.AttrValue
import PageMarkup.Json.Approximate

namespace PageMarkup

def AttrValue.ofJson? : Json → Option AttrValue
  | .string text => some (.string text)
  | .boolean truth => some (.boolean truth)
  | json => json.double?.map .number

end PageMarkup
