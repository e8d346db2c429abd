namespace Refsite.Page

/-- The directory of the style sheets. -/
def styleDirectory : String := "styles"

def styleName : String := "docgraft.css"

def style : String :=
  "body \x7b
    font: 14px \"Helvetica Neue\", Helvetica, Arial, sans-serif;
    color: #4d4e53;
    background-color: #fff;
\x7d

#main \x7b
    float: left;
    width: 70%;
\x7d

nav \x7b
    float: left;
    width: 25%;
    padding-left: 16px;
\x7d

nav ul \x7b
    list-style-type: none;
    padding-left: 0;
\x7d

footer \x7b
    clear: both;
    font-size: 90%;
    font-style: italic;
    padding: 12px 0;
\x7d

.signature-attributes \x7b
    font-size: 60%;
    color: #aaa;
    font-style: italic;
    font-weight: lighter;
\x7d

.type-signature \x7b
    color: #aaa;
\x7d

.ancestors, .ancestors a \x7b
    color: #999;
\x7d

.disabled \x7b
    color: #454545;
\x7d

table.params \x7b
    border-collapse: collapse;
    width: 100%;
\x7d

table.params td, table.params th \x7b
    border: 1px solid #ddd;
    padding: 4px;
    text-align: left;
    vertical-align: top;
\x7d

.source pre \x7b
    font-size: 12px;
\x7d
"

def listingStyleName : String := "highlight.css"

end Refsite.Page
