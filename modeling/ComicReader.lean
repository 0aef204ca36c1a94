import ComicReader.Reader.Order
import ComicReader.Reader.Visible
import ComicReader.Reader.Complete
import ComicReader.Reader.Finger
import ComicReader.Reader.Quiet
import ComicReader.Reader.Pictures
import ComicReader.Reader.Downloaded
import ComicReader.Info.Served
import ComicReader.Navigation.Current
import ComicReader.Navigation.Bar
import ComicReader.Color.DecNum
