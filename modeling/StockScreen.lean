import StockScreen.Main
import StockScreen.Proofs.Text.Encoding
import StockScreen.Proofs.Text.Decoding
import StockScreen.Proofs.Binary64.Tokens
import StockScreen.Proofs.Binary64.Closeness
import StockScreen.Proofs.Query.NormalForm
import StockScreen.Proofs.Query.Keeping
import StockScreen.Proofs.Query.Narrowing
import StockScreen.Proofs.Query.Pasting
import StockScreen.Proofs.Csv.Scanning
import StockScreen.Proofs.Csv.Writing
import StockScreen.Proofs.Csv.Faults
import StockScreen.Proofs.Dataset.Loading
import StockScreen.Proofs.Dataset.Failing
import StockScreen.Proofs.Page.Markup
import StockScreen.Proofs.Page.Rendering
import StockScreen.Proofs.Page.Rows
import StockScreen.Proofs.Json.Grammar
import StockScreen.Proofs.Json.Passing
import StockScreen.Proofs.Json.Members
import StockScreen.Proofs.Json.Taking
import StockScreen.Proofs.Json.Wellformed
import StockScreen.Proofs.Json.Entries
import StockScreen.Proofs.Json.Items
import StockScreen.Proofs.Json.Scaling
import StockScreen.Proofs.Json.Numerals
import StockScreen.Proofs.Json.NumberTexts
import StockScreen.Proofs.Document.Stocks
import StockScreen.Proofs.Document.Queries
import StockScreen.Proofs.Document.Completeness
import StockScreen.Proofs.Listing.Columns
import StockScreen.Proofs.Dataset.Views
import StockScreen.Proofs.Service.Access
import StockScreen.Proofs.Service.Bodies
import StockScreen.Proofs.Service.Acceptance
import StockScreen.Proofs.Service.Negotiation
import StockScreen.Proofs.Service.Screening
import StockScreen.Proofs.Service.Starting
import StockScreen.Proofs.Program.Outcomes
import StockScreen.Proofs.Program.TableLines
import StockScreen.Proofs.Service.Rereading
import StockScreen.Proofs.Binary64.Values
import StockScreen.Proofs.Query.Bounds
import StockScreen.Proofs.Binary64.Overflow
import StockScreen.Proofs.Binary64.Reading
import StockScreen.Proofs.Query.Thresholds
import StockScreen.Proofs.Json.Squeezing
import StockScreen.Proofs.Listing.Warnings
import StockScreen.Proofs.Listing.Formats
import StockScreen.Proofs.Listing.Alignment
